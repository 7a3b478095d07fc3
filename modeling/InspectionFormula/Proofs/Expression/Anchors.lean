import InspectionFormula.Proofs.Expression.RoundTrip

/-!
# Reading expressions from other anchors

The text of an expression gives the names of its paths and not their kinds.  Read
from another anchor it is the same expression, but its paths have the kinds that
this anchor settles.
-/

namespace InspectionFormula

namespace Path

open Segment

variable {anchor path other : Path}

/-- The path that the text of a path denotes from an anchor. -/
def settledFrom (anchor path : Path) : Path :=
  ⟨adoptKinds anchor.segments (path.segments.map unsettled)⟩

theorem followKinds_settledFrom (anchor path : Path) :
    FollowKinds anchor.segments (settledFrom anchor path).segments := by
  apply followKinds_of_plain
  intro segment member
  obtain ⟨other, -, rfl⟩ := List.mem_map.1 member
  rfl

theorem settledFrom_eq_self_iff :
    settledFrom anchor path = path ↔ FollowKinds anchor.segments path.segments := by
  constructor
  · intro same
    rw [← same]
    exact followKinds_settledFrom anchor path
  · intro follow
    rw [settledFrom, adoptKinds_of_followKinds follow]

theorem names_settledFrom (anchor path : Path) :
    (settledFrom anchor path).segments.map Segment.name = path.segments.map Segment.name := by
  rw [settledFrom, names_adoptKinds, List.map_map]
  rfl

theorem isRenderable_settledFrom (anchor path : Path) :
    (settledFrom anchor path).isRenderable = path.isRenderable := by
  rw [isRenderable_eq_names, isRenderable_eq_names, names_settledFrom]

theorem spell_eq_names (path : Path) :
    path.spell = if (path.segments.map Segment.name).isEmpty then ['/']
      else (path.segments.map Segment.name).flatMap fun name =>
        '/' :: Segment.spell name.toList := by
  rw [spell, isRoot, List.flatMap_map, List.isEmpty_map]

theorem spell_settledFrom (anchor path : Path) : (settledFrom anchor path).spell = path.spell := by
  rw [spell_eq_names, spell_eq_names path, names_settledFrom]

end Path

namespace Expression

variable {change : Path → Path} {anchor other : Path} {tree : Expression}

mutual

/-- The tree with other paths in its references. -/
def mapPaths (change : Path → Path) : Expression → Expression
  | number value span => number value span
  | constant found span => constant found span
  | literal text span => literal text span
  | reference target span => reference ⟨change target.path, target.key⟩ span
  | negate operand span => negate (operand.mapPaths change) span
  | call operation arguments span => call operation (mapPathsEach change arguments) span

def mapPathsEach (change : Path → Path) : List Expression → List Expression
  | [] => []
  | first :: rest => first.mapPaths change :: mapPathsEach change rest

end

theorem mapPathsEach_eq_map (expressions : List Expression) :
    mapPathsEach change expressions = expressions.map (mapPaths change) := by
  induction expressions with
  | nil => rfl
  | cons first rest ih => rw [mapPathsEach, ih, List.map_cons]

theorem mapPaths_call (operation : Operation) (arguments : List Expression) (span : Span) :
    (call operation arguments span).mapPaths change =
      call operation (arguments.map (mapPaths change)) span := by
  rw [mapPaths, mapPathsEach_eq_map]

theorem withNegations_mapPaths (tree : Expression) :
    (tree.mapPaths change).withNegations = tree.withNegations.mapPaths change := by
  induction tree using children_induction with
  | step tree ih =>
      cases tree with
      | number value span =>
          simp only [mapPaths, withNegations]
          split <;> rfl
      | constant | literal | reference => rfl
      | negate operand span =>
          rw [mapPaths, withNegations, withNegations, mapPaths, ih operand (by simp [children])]
      | call operation arguments span =>
          rw [mapPaths_call, withNegations_call, withNegations_call, mapPaths_call, List.map_map,
            List.map_map]
          exact congrArg (call operation · span) (List.map_congr_left ih)

/-- With other paths it is another expression up to spans, unless they are the same in all
references. -/
theorem eraseSpans_mapPaths_eq_iff :
    (tree.mapPaths change).eraseSpans = tree.eraseSpans ↔
      ∀ target span, tree.HasNode (.reference target span) → change target.path = target.path := by
  induction tree using children_induction with
  | step tree ih =>
      cases tree with
      | number | constant | literal =>
          rw [forall_references_iff rfl]
          simp [mapPaths, children]
      | reference target span =>
          constructor
          · intro same other otherSpan hasNode
            rcases hasNode_iff.1 hasNode with equal | ⟨child, isChild, -⟩
            · cases equal
              simp only [mapPaths, eraseSpans, reference.injEq, and_true] at same
              exact congrArg Reference.path same
            · cases isChild
          · intro each
            rw [mapPaths, each target span .root]
      | negate operand span =>
          rw [forall_references_iff rfl, mapPaths, eraseSpans, eraseSpans]
          simpa [children] using ih operand (by simp [children])
      | call operation arguments span =>
          rw [forall_references_iff rfl, mapPaths_call, eraseSpans_call, eraseSpans_call,
            List.map_map, call.injEq, List.map_inj_left]
          simpa [children] using forall₂_congr ih

theorem spell_negate_congr {operand replacement : Expression} (span otherSpan : Span)
    (signed : replacement.startsWithSign = operand.startsWithSign)
    (same : replacement.spell = operand.spell) :
    (negate replacement otherSpan).spell = (negate operand span).spell := by
  rw [spell, spell, signed, same]

theorem spell_call_congr {operation : Operation} {arguments replacements : List Expression}
    (span otherSpan : Span) (same : replacements.map spell = arguments.map spell) :
    (call operation replacements otherSpan).spell = (call operation arguments span).spell := by
  rw [spell, spell, spellEach_eq_map, spellEach_eq_map, same]

theorem spell_mapPaths (same : ∀ path, (change path).spell = path.spell) (tree : Expression) :
    (tree.mapPaths change).spell = tree.spell := by
  induction tree using children_induction with
  | step tree ih =>
      cases tree with
      | number | constant | literal => rfl
      | reference target span => simp only [mapPaths, spell, Reference.spell, same]
      | negate operand span =>
          have signed : (operand.mapPaths change).startsWithSign = operand.startsWithSign := by
            cases operand <;> rfl
          exact spell_negate_congr span span signed (ih operand (by simp [children]))
      | call operation arguments span =>
          rw [mapPaths_call]
          apply spell_call_congr
          rw [List.map_map]
          exact List.map_congr_left ih

theorem spell_eraseSpans (tree : Expression) : tree.eraseSpans.spell = tree.spell := by
  induction tree using children_induction with
  | step tree ih =>
      cases tree with
      | number | constant | literal | reference => rfl
      | negate operand span =>
          have signed : operand.eraseSpans.startsWithSign = operand.startsWithSign := by
            cases operand <;> rfl
          exact spell_negate_congr span _ signed (ih operand (by simp [children]))
      | call operation arguments span =>
          rw [eraseSpans_call]
          apply spell_call_congr
          rw [List.map_map]
          exact List.map_congr_left ih

/-- What can be written from one anchor can be written from another one, with paths of the kinds
that this one settles. -/
theorem IsPrintable.settledFrom (isPrintable : IsPrintable anchor tree) (other : Path) :
    IsPrintable other (tree.mapPaths (Path.settledFrom other)) := by
  induction isPrintable with
  | number finite => exact .number finite
  | constant known => exact .constant known
  | @reference path key span renderable follow =>
      exact .reference ((Path.isRenderable_settledFrom other path).trans renderable)
        (Path.followKinds_settledFrom other path)
  | negate _ ih => exact .negate ih
  | operator known between _ _ leftIh rightIh => exact .operator known between leftIh rightIh
  | call known before accepted _ ih =>
      rw [mapPaths_call]
      refine .call known before (by rwa [List.length_map]) ?_
      intro argument member
      obtain ⟨original, isArgument, rfl⟩ := List.mem_map.1 member
      exact ih original isArgument

end Expression

namespace Dialect

/-- The text of an expression that was read for one owner is read for every other owner, as the same
expression with the paths that their texts denote there.  It is the same up to spans exactly if each
path has the kinds that the other owner settles, and its text is the same in any case. -/
theorem read_text_from_other_owner (owner other : Path) (renderable : owner.isRenderable = true)
    {text : String} {formula : Formula} (read : standard.read text owner = .ok formula) :
    ∃ again, standard.read formula.root.text other = .ok again ∧
      again.root.eraseSpans =
        (formula.root.mapPaths (Path.settledFrom other.parent)).eraseSpans ∧
      again.root.text = formula.root.text ∧
      (again.root.eraseSpans = formula.root.eraseSpans ↔
        ∀ target span, formula.root.HasNode (.reference target span) →
          Segment.FollowKinds other.parent.segments target.path.segments) := by
  obtain ⟨isPrintable, positive⟩ :=
    Expression.isReadable_of_parse (isRenderable_parent renderable) (parse_of_read read)
  -- The text shows no kinds, so it is also that of the tree with the kinds of the other owner.
  have sameSpelling := Expression.spell_mapPaths (Path.spell_settledFrom other.parent) formula.root
  obtain ⟨root, readAgain, same⟩ := (isPrintable.settledFrom other.parent).parse_text
  rw [Expression.text, sameSpelling] at readAgain
  rw [Expression.withNegations_mapPaths, positive] at same
  refine ⟨_, read_eq_ok readAgain, same, ?_, ?_⟩
  · rw [Expression.text, Expression.text, ← Expression.spell_eraseSpans root, same,
      Expression.spell_eraseSpans, sameSpelling]
  · rw [same, Expression.eraseSpans_mapPaths_eq_iff]
    simp only [Path.settledFrom_eq_self_iff]

theorem read_text_of_part_from_other_owner :
    ∃ (owner other target : Path) (formula again : Formula) (span : Span),
      owner.isRenderable = true ∧ standard.read "\x7b/P/x\x7d" owner = .ok formula ∧
      formula.root = .reference ⟨target, none⟩ span ∧
      standard.read formula.root.text other = .ok again ∧
      again.root.eraseSpans =
        (formula.root.mapPaths (Path.settledFrom other.parent)).eraseSpans ∧
      again.root.text = formula.root.text ∧ again.root.eraseSpans ≠ formula.root.eraseSpans := by
  let owner : Path := ⟨[⟨.part, "P"⟩, ⟨.characteristic, "A"⟩]⟩
  let other : Path := ⟨[⟨.characteristic, "B"⟩]⟩
  let target : Path := ⟨[⟨.part, "P"⟩, ⟨.characteristic, "x"⟩]⟩
  have ofPart : ((standard.read "\x7b/P/x\x7d" owner).toOption.any fun formula =>
      formula.root.shape == some ⟨target, none⟩) = true := by
    decide +kernel
  obtain ⟨formula, read, refers⟩ := exists_eq_ok_of_any ofPart
  obtain ⟨span, isReference⟩ := Expression.eq_reference_of_shape (eq_of_beq refers)
  obtain ⟨again, readAgain, settled, sameText, same_iff⟩ :=
    read_text_from_other_owner owner other rfl read
  refine ⟨owner, other, target, formula, again, span, rfl, read, isReference, readAgain, settled,
    sameText, ?_⟩
  intro same
  have follow := same_iff.1 same ⟨target, none⟩ span (isReference ▸ .root)
  cases follow with
  | apart _ plain => exact absurd (plain ⟨.part, "P"⟩ (by simp [target])) (by decide)

/-- The text of an expression is not the same expression for all owners. -/
theorem not_forall_eraseSpans_eq : ¬ ∀ (owner other : Path) (text : String) (formula : Formula),
    owner.isRenderable = true → other.isRenderable = true →
    standard.read text owner = .ok formula →
    ∃ again, standard.read formula.root.text other = .ok again ∧
      again.root.eraseSpans = formula.root.eraseSpans := by
  intro claimed
  let owner : Path := ⟨[⟨.part, "P"⟩, ⟨.characteristic, "A"⟩]⟩
  let other : Path := ⟨[⟨.characteristic, "B"⟩]⟩
  let target : Path := ⟨[⟨.part, "P"⟩, ⟨.characteristic, "x"⟩]⟩
  let plain : Path := ⟨[⟨.characteristic, "P"⟩, ⟨.characteristic, "x"⟩]⟩
  have ofPart : ((standard.read "\x7b/P/x\x7d" owner).toOption.any fun formula =>
      formula.root.shape == some ⟨target, none⟩ && formula.root.text == "\x7b/P/x\x7d") = true := by
    decide +kernel
  have ofPlain : ((standard.read "\x7b/P/x\x7d" other).toOption.any fun formula =>
      formula.root.shape == some ⟨plain, none⟩) = true := by
    decide +kernel
  obtain ⟨formula, read, refers⟩ := exists_eq_ok_of_any ofPart
  obtain ⟨refers, written⟩ := Bool.and_eq_true_iff.1 refers
  obtain ⟨again, readAgain, same⟩ := claimed owner other _ formula rfl rfl read
  rw [eq_of_beq written] at readAgain
  obtain ⟨found, readPlain, refersPlain⟩ := exists_eq_ok_of_any ofPlain
  cases readAgain.symm.trans readPlain
  have shapes := congrArg Expression.shape same
  rw [Expression.shape_eraseSpans, Expression.shape_eraseSpans, eq_of_beq refers,
    eq_of_beq refersPlain] at shapes
  exact absurd shapes (by decide)

end Dialect

end InspectionFormula
