import Mathlib.Data.List.Basic
import InspectionFormula.Proofs.Path.Resolved

/-!
# Names and kinds of resolved paths

Steps act on names alone, and the anchor settles the kinds from the names.  So
texts that lead to the same names resolve to the same path, however they spell
it.
-/

namespace InspectionFormula

namespace Text

/-- Between a text that starts with a slash and one after it, a slash keeps all but the blanks at
the end. -/
theorem exists_trim_append_slash {front : List Char} (starts : front.head? = some '/')
    (text : List Char) :
    ∃ blanks, IsBlank blanks ∧
      trim (front ++ '/' :: text) = front ++ '/' :: (blanks ++ trim text) := by
  obtain ⟨before, after, blankBefore, blankAfter, same⟩ := exists_blanks_around text
  have kept {rest : List Char} (nonempty : rest ≠ [])
      (ends : ∀ last, rest.getLast? = some last → isWhiteSpace last = false) :
      trim (front ++ rest) = front ++ rest := by
    rw [trim_eq_self_iff, List.head?_append, starts, Option.some_or,
      List.getLast?_append_of_ne_nil _ nonempty]
    refine ⟨?_, ends⟩
    rintro first ⟨⟩
    rfl
  -- What is left of a blank text is the slash before it.
  by_cases blank : trim text = []
  · refine ⟨[], isBlank_nil, ?_⟩
    rw [List.append_cons, trim_append_of_isBlank (isBlank_of_trim_eq_nil blank), blank,
      List.append_nil]
    exact kept (by simp) (by simp; rfl)
  · have split : front ++ '/' :: text = front ++ '/' :: (before ++ trim text) ++ after := by
      rw [List.append_assoc, List.cons_append, List.append_assoc, ← same]
    refine ⟨before, blankBefore, ?_⟩
    rw [split, trim_append_of_isBlank blankAfter]
    apply kept (by simp)
    rw [← List.cons_append, List.getLast?_append_of_ne_nil _ blank]
    exact (trim_eq_self_iff.1 (trim_trim text)).2

end Text

namespace Segment

variable {known segments others : List Segment} {segment : Segment} {index : Nat}

theorem map_unsettled (segments : List Segment) :
    segments.map unsettled = (segments.map name).map (mk .characteristic) := by
  rw [List.map_map]
  rfl

/-- An anchor settles the kinds by the names. -/
theorem FollowKinds.eq_of_names (follow : FollowKinds known segments)
    (otherFollow : FollowKinds known others) (names : segments.map name = others.map name) :
    segments = others := by
  rw [← Path.adoptKinds_of_followKinds follow, ← Path.adoptKinds_of_followKinds otherFollow,
    map_unsettled, names, ← map_unsettled]

/-- The names of two paths are the same up to a place. -/
def AgreeThrough (index : Nat) (known segments : List Segment) : Prop :=
  (segments.take (index + 1)).map name = (known.take (index + 1)).map name

/-- Up to the first name that is not the anchor's, each segment is the anchor's own.  From there on
all are characteristics. -/
theorem FollowKinds.at_index (follow : FollowKinds known segments)
    (found : segments[index]? = some segment) :
    (AgreeThrough index known segments → known[index]? = some segment) ∧
      (¬ AgreeThrough index known segments → segment.kind = .characteristic) := by
  induction follow generalizing index with
  | @shared first known segments rest ih =>
      cases index with
      | zero =>
          cases found
          exact ⟨fun _ => rfl, fun apart => absurd (by simp [AgreeThrough]) apart⟩
      | succ index =>
          have agree : AgreeThrough (index + 1) (first :: known) (first :: segments) ↔
              AgreeThrough index known segments := by
            simp [AgreeThrough]
          rw [agree]
          exact ih found
  | @apart known segments differ plain =>
      refine ⟨fun agree => ?_, fun _ => plain segment (List.mem_of_getElem? found)⟩
      cases segments with
      | nil => cases found
      | cons first segments =>
          cases known with
          | nil => simp [AgreeThrough] at agree
          | cons other known =>
              simp only [AgreeThrough, List.take_succ_cons, List.map_cons, List.cons.injEq] at agree
              exact absurd agree.1.symm (differ other first rfl rfl)

/-- A characteristic follows whatever stands before it. -/
theorem followKinds_append_characteristic (known : List Segment)
    (plain : segment.kind = .characteristic) : FollowKinds known (known ++ [segment]) := by
  induction known with
  | nil => exact .apart (by simp) (by simpa using plain)
  | cons first known ih => exact .shared ih

end Segment

namespace Path

open Segment

variable {anchor path other : Path} {steps : List WrittenStep}

def names (path : Path) : List String := path.segments.map Segment.name

/-- Takes one step on names. -/
def stepNames? (names : List String) (step : WrittenStep) : Option (List String) :=
  if step.climbs then if names.isEmpty then none else some names.dropLast
  else some (names ++ [String.ofList step.name])

theorem map_names_step? (place : Path) (step : WrittenStep) :
    (place.step? step).map names = stepNames? place.names step := by
  unfold step? stepNames?
  split
  · cases root : place.isRoot with
    | true =>
        have none : place.names.isEmpty = true := by rwa [names, List.isEmpty_map]
        rw [climb?, if_pos root, if_pos none]
        rfl
    | false =>
        have some : ¬ place.names.isEmpty = true := by
          rw [names, List.isEmpty_map]
          exact Bool.eq_false_iff.1 root
        rw [climb?, if_neg (Bool.eq_false_iff.1 root), if_neg some, Option.map_some, names, names,
          parent, List.map_dropLast]
  · simp [child, names]

/-- Where steps lead by name depends on the names of the place where they start. -/
theorem map_names_foldlM_step? (steps : List WrittenStep) (place : Path) :
    (steps.foldlM step? place).map names = steps.foldlM stepNames? place.names := by
  induction steps generalizing place with
  | nil => rfl
  | cons step steps ih =>
      rw [List.foldlM_cons, List.foldlM_cons, ← map_names_step?]
      cases place.step? step with
      | none => rfl
      | some next => exact ih next

/-- More of some steps climb than there are names to climb from: those available before the steps
and those that the steps add. -/
def ClimbsBeyond (available : Nat) (steps : List WrittenStep) : Prop :=
  available + steps.countP (fun step => !step.climbs) < steps.countP WrittenStep.climbs

theorem not_climbsBeyond_nil (available : Nat) : ¬ ClimbsBeyond available [] := by
  simp [ClimbsBeyond]

theorem climbsBeyond_cons_of_stays {step : WrittenStep} {available : Nat}
    (stays : step.climbs = false) :
    ClimbsBeyond available (step :: steps) ↔ ClimbsBeyond (available + 1) steps := by
  rw [ClimbsBeyond, ClimbsBeyond, List.countP_cons_of_pos (by simp [stays]),
    List.countP_cons_of_neg (by simp [stays])]
  omega

theorem climbsBeyond_cons_of_climbs {step : WrittenStep} {available : Nat}
    (climbs : step.climbs = true) :
    ClimbsBeyond (available + 1) (step :: steps) ↔ ClimbsBeyond available steps := by
  rw [ClimbsBeyond, ClimbsBeyond, List.countP_cons_of_neg (by simp [climbs]),
    List.countP_cons_of_pos climbs]
  omega

theorem exists_prefix_cons_iff {holds : List WrittenStep → Prop} {step : WrittenStep}
    (start : ¬ holds []) :
    (∃ read, read <+: step :: steps ∧ holds read) ↔
      ∃ read, read <+: steps ∧ holds (step :: read) := by
  constructor
  · rintro ⟨read, isPrefix, found⟩
    rcases List.prefix_cons_iff.1 isPrefix with rfl | ⟨more, rfl, isMore⟩
    · exact absurd found start
    · exact ⟨more, isMore, found⟩
  · rintro ⟨read, isPrefix, found⟩
    exact ⟨step :: read, List.cons_prefix_cons.2 ⟨rfl, isPrefix⟩, found⟩

/-- Steps lead nowhere if the first of them, up to some place, climb beyond the root. -/
theorem foldlM_stepNames?_eq_none_iff {names : List String} :
    steps.foldlM stepNames? names = none ↔
      ∃ read, read <+: steps ∧ ClimbsBeyond names.length read := by
  induction steps generalizing names with
  | nil => simp [ClimbsBeyond]
  | cons step steps ih =>
      rw [exists_prefix_cons_iff (not_climbsBeyond_nil _), List.foldlM_cons, stepNames?]
      cases climbs : step.climbs with
      | false =>
          simp only [climbsBeyond_cons_of_stays climbs]
          refine (@ih (names ++ [String.ofList step.name])).trans ?_
          rw [List.length_append, List.length_singleton]
      | true =>
          cases names with
          | nil => exact iff_of_true rfl ⟨[], List.nil_prefix, by simp [ClimbsBeyond, climbs]⟩
          | cons first names =>
              simp only [List.length_cons, climbsBeyond_cons_of_climbs climbs]
              refine (@ih (first :: names).dropLast).trans ?_
              rw [List.length_dropLast, List.length_cons, Nat.add_sub_cancel]

/-- A text leads by name to where its steps lead from the names that it starts with. -/
theorem map_names_resolve? (anchor : Path) (raw : String) :
    (resolve? anchor raw).map names = (writtenSteps (Text.trim raw.toList)).foldlM stepNames?
      (if (Text.trim raw.toList).head? = some '/' then [] else anchor.names) := by
  have sameNames : names ∘ (fun path => ⟨adoptKinds anchor.segments path.segments⟩) = names := by
    funext path
    exact names_adoptKinds anchor.segments path.segments
  rw [resolve?_eq, resolveSteps?, Option.map_map, sameNames, map_names_foldlM_step?]
  simp only [beq_iff_eq]
  split <;> rfl

theorem followKinds_of_resolve? {raw : String} (resolved : resolve? anchor raw = some path) :
    FollowKinds anchor.segments path.segments :=
  (isResolved_of_resolve? resolved).follow

/-- Paths of the same names that texts resolve to are the same. -/
theorem eq_of_resolve? {raw otherRaw : String} (resolved : resolve? anchor raw = some path)
    (otherResolved : resolve? anchor otherRaw = some other) (sameNames : path.names = other.names) :
    path = other :=
  congrArg mk ((followKinds_of_resolve? resolved).eq_of_names
    (followKinds_of_resolve? otherResolved) sameNames)

theorem resolve?_congr {raw otherRaw : String}
    (sameNames : (resolve? anchor raw).map names = (resolve? anchor otherRaw).map names) :
    resolve? anchor raw = resolve? anchor otherRaw := by
  cases resolved : resolve? anchor raw with
  | none =>
      rw [resolved] at sameNames
      exact (Option.map_eq_none_iff.1 sameNames.symm).symm
  | some path =>
      rw [resolved] at sameNames
      obtain ⟨other, otherResolved, same⟩ := Option.map_eq_some_iff.1 sameNames.symm
      rw [otherResolved, eq_of_resolve? resolved otherResolved same.symm]

theorem foldlM_stepNames?_written (segments : List Segment) :
    (segments.map written).foldlM stepNames? [] = some (segments.map Segment.name) := by
  have followed := map_names_foldlM_step? (segments.map written) root
  rw [foldlM_step?_written, Option.map_some] at followed
  have named : (segments.map unsettled).map Segment.name = segments.map Segment.name := by
    rw [List.map_map]
    rfl
  rw [← named]
  exact followed.symm

/-- A relative text resolves to what it denotes after the text of the anchor. -/
theorem resolve?_after_text (renderable : anchor.isRenderable = true) {raw : String}
    (relative : (Text.trim raw.toList).head? ≠ some '/') :
    resolve? anchor (anchor.text ++ "/" ++ raw) = resolve? anchor raw := by
  apply resolve?_congr
  obtain ⟨ends, steps⟩ := writtenSteps_spell renderable
  obtain ⟨blanks, isBlank, trimmed⟩ :=
    Text.exists_trim_append_slash (head?_spell anchor) raw.toList
  have parts : (anchor.text ++ "/" ++ raw).toList = anchor.spell ++ '/' :: raw.toList := by
    simp [text]
  have absolute : (anchor.spell ++ '/' :: (blanks ++ Text.trim raw.toList)).head? = some '/' := by
    rw [List.head?_append, head?_spell, Option.some_or]
  rw [map_names_resolve?, map_names_resolve?, parts, trimmed, if_pos absolute, if_neg relative,
    writtenSteps_append_slash ends, steps, writtenSteps_blank_append isBlank, List.foldlM_append,
    foldlM_stepNames?_written]
  rfl

theorem resolve?_eq_none_iff (anchor : Path) (raw : String) :
    resolve? anchor raw = none ↔ ∃ read, read <+: writtenSteps (Text.trim raw.toList) ∧
      ClimbsBeyond (if (Text.trim raw.toList).head? = some '/' then 0 else anchor.length) read := by
  have available : (if (Text.trim raw.toList).head? = some '/' then [] else anchor.names).length =
      if (Text.trim raw.toList).head? = some '/' then 0 else anchor.length := by
    split
    · rfl
    · rw [names, List.length_map, length]
  rw [← available, ← foldlM_stepNames?_eq_none_iff, ← map_names_resolve?, Option.map_eq_none_iff]

theorem eq_child_of_last? {segment : Segment} (isLast : path.last? = some segment) :
    path = path.parent.child segment := by
  have parts := List.dropLast_append_getLast? segment isLast
  rw [child, parent, parts]

/-- A characteristic has the kinds that its own parent settles. -/
theorem followKinds_parent (kind : path.last?.map Segment.kind = some .characteristic) :
    FollowKinds path.parent.segments path.segments := by
  obtain ⟨segment, isLast, plain⟩ := Option.map_eq_some_iff.1 kind
  have follow := followKinds_append_characteristic path.parent.segments plain
  have parts : path.parent.segments ++ [segment] = path.segments :=
    congrArg segments (eq_child_of_last? isLast).symm
  rwa [parts] at follow

/-- What a text resolves to depends on the names that it leads to and not on how it spells them.  A
relative text resolves as it does after the text of the anchor, and to nothing if it climbs above
the root.  The anchor settles the kinds: its own as far as the names agree, and characteristics from
there on.  So paths of the same names are the same, and those of a characteristic's names are that
characteristic. -/
theorem resolve?_determined_by_names (anchor : Path) :
    (∀ raw : String, anchor.isRenderable = true → (Text.trim raw.toList).head? ≠ some '/' →
      resolve? anchor raw = resolve? anchor (anchor.text ++ "/" ++ raw)) ∧
    (∀ raw : String, resolve? anchor raw = none ↔
      ∃ read, read <+: writtenSteps (Text.trim raw.toList) ∧
        ClimbsBeyond (if (Text.trim raw.toList).head? = some '/' then 0 else anchor.length) read) ∧
    (∀ raw path, resolve? anchor raw = some path →
      ∀ index segment, path.segments[index]? = some segment →
        (AgreeThrough index anchor.segments path.segments →
          anchor.segments[index]? = some segment) ∧
        (¬ AgreeThrough index anchor.segments path.segments → segment.kind = .characteristic)) ∧
    (∀ raw otherRaw path other, resolve? anchor raw = some path →
      resolve? anchor otherRaw = some other → path.names = other.names → path = other) ∧
    ∀ (owner : Path) (raw : String) (path : Path), owner.parent = anchor →
      owner.last?.map Segment.kind = some .characteristic → resolve? anchor raw = some path →
        path.names = owner.names → path = owner := by
  refine ⟨?_, resolve?_eq_none_iff anchor, ?_, ?_, ?_⟩
  · intro raw renderable relative
    exact (resolve?_after_text renderable relative).symm
  · intro raw path resolved index segment found
    exact (followKinds_of_resolve? resolved).at_index found
  · intro raw otherRaw path other resolved otherResolved sameNames
    exact eq_of_resolve? resolved otherResolved sameNames
  · rintro owner raw path rfl kind resolved sameNames
    exact congrArg mk
      ((followKinds_of_resolve? resolved).eq_of_names (followKinds_parent kind) sameNames)

theorem resolve?_spellings_of_owner :
    ∃ owner anchor : Path, owner = ⟨[⟨.part, "P"⟩, ⟨.characteristic, "A"⟩]⟩ ∧
      anchor = owner.parent ∧ anchor.isRenderable = true ∧
      (∀ raw ∈ ["A", "../P / \"A\"", " /P/A", "B/../A"], resolve? anchor raw = some owner) ∧
      resolve? anchor "../../A" = none ∧
      resolve? anchor "../Q" = resolve? anchor (anchor.text ++ "/" ++ "../Q") := by
  let owner : Path := ⟨[⟨.part, "P"⟩, ⟨.characteristic, "A"⟩]⟩
  obtain ⟨spelledOut, failsIf, -, -, ownersAgree⟩ := resolve?_determined_by_names owner.parent
  refine ⟨owner, owner.parent, rfl, rfl, by decide, ?_, ?_,
    spelledOut "../Q" (by decide) (by decide)⟩
  · intro raw member
    have each : (["A", "../P / \"A\"", " /P/A", "B/../A"] : List String).all (fun raw =>
        (resolve? owner.parent raw).any fun path => path.names == owner.names) = true := by
      decide +kernel
    obtain ⟨path, resolved, same⟩ := (Option.any_eq_true ..).1 (List.all_eq_true.1 each raw member)
    rw [resolved, ownersAgree owner raw path rfl rfl resolved (eq_of_beq same)]
  · exact (failsIf "../../A").2 ⟨[⟨['.', '.'], false⟩, ⟨['.', '.'], false⟩], by decide +kernel,
      by unfold ClimbsBeyond; decide +kernel⟩

end Path

end InspectionFormula
