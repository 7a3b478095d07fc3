import InspectionFormula.Proofs.Expression.Anchors
import InspectionFormula.Proofs.Path.Names

/-!
# Paths that formulas can denote

A path without quotes in its names is denoted by its own text, in every catalog
and from every anchor.  For an owner that can itself be written, formulas denote
no other paths.
-/

namespace InspectionFormula

open Grammar

namespace Expression

variable {catalog : Catalog} {resolve : String → Option Path} {formula : String}
  {value : Expression} {target : Reference} {span : Span}

/-- All references denote what some text resolves to. -/
def RefersBy (resolve : String → Option Path) (tree : Expression) : Prop :=
  ∀ target span, tree.HasNode (.reference target span) → ∃ text, resolve text = some target.path

theorem RefersBy.withSpan (refersBy : RefersBy resolve value) (span : Span) :
    RefersBy resolve (value.withSpan span) := by
  intro target other hasNode
  rcases hasNode_iff.1 hasNode with same | ⟨child, isChild, hasNode⟩
  · cases value with
    | reference =>
        cases same
        exact refersBy _ _ .root
    | number | constant | literal | negate | call => cases same
  · rw [children_withSpan] at isChild
    exact refersBy target other (.inChild isChild hasNode)

theorem refersBy_of_children {tree : Expression} (inner : tree.shape = none)
    (each : ∀ child ∈ tree.children, RefersBy resolve child) : RefersBy resolve tree :=
  (forall_references_iff inner).2 each

theorem isInherited_refersBy (catalog : Catalog) (resolve : String → Option Path) :
    IsInherited catalog resolve (RefersBy resolve) where
  number _ _ := refersBy_of_children rfl fun _ isChild => nomatch isChild
  constant _ _ := refersBy_of_children rfl fun _ isChild => nomatch isChild
  reference _ _ resolves := by
    intro target span hasNode
    rcases hasNode_iff.1 hasNode with same | ⟨child, isChild, -⟩
    · cases same
      exact ⟨_, resolves⟩
    · cases isChild
  withSpan span inner := inner.withSpan span
  negate _ inner := refersBy_of_children rfl (by simpa [children] using inner)
  operator _ _ left right := refersBy_of_children rfl (by simpa [children] using ⟨left, right⟩)
  call _ _ _ each := refersBy_of_children rfl each

/-- A path in braces is read as a reference to what its text resolves to. -/
theorem parse_spell_reference {path target : Path} (renderable : path.isRenderable = true)
    (resolves : resolve path.text = some target) (key : Option UInt16) :
    parse catalog resolve (String.ofList (Reference.spell ⟨path, key⟩)) =
      .ok (.reference ⟨target, key⟩ ⟨0, Text.byteLength (Reference.spell ⟨path, key⟩)⟩) := by
  let text := Reference.spell ⟨path, key⟩
  obtain ⟨opening, pathTokens, keyTokens, closing, scanned, opens, isPath, isKey, closes, found,
    spans⟩ := Spells.scanFrom_reference catalog renderable key [] []
  rw [List.nil_append, List.append_nil] at found
  have tokens : Token.scan catalog (String.ofList text) =
      opening :: pathTokens ++ keyTokens ++ [closing] := by
    rw [Token.scan_eq_scanFrom, String.toList_ofList]
    exact scanned
  have named : ∀ token ∈ pathTokens, token.isReserved = false → token.isName = true := by
    intro token member
    exact Token.isName_of_mem_scan (by rw [tokens]; simp [member])
  have read : ParseState.readEach ⟨text, resolve⟩ ⟨[], .opened, .factor⟩
      (opening :: pathTokens ++ keyTokens ++ [closing]) =
        ParseState.supply [] .opened
          (.reference ⟨target, key⟩ (opening.span.through closing.span)) :=
    ParseState.readEach_reference opens isPath isKey closes
      ((congrArg resolve found).trans resolves) named (.inl rfl)
  rw [parse, tokens, ofTokens?_eq, String.toList_ofList, read, spans]
  rfl

end Expression

namespace Path

variable {anchor path other : Path}

theorem isRenderable_iff_not_mem :
    path.isRenderable = true ↔ ∀ segment ∈ path.segments, '"' ∉ segment.name.toList := by
  simp [isRenderable, Segment.isRenderable]

theorem isRenderable_congr (sameNames : path.names = other.names) :
    path.isRenderable = other.isRenderable := by
  rw [names, names] at sameNames
  rw [isRenderable_eq_names, isRenderable_eq_names, sameNames]

/-- From every anchor the text of a path denotes a path of the same names. -/
theorem resolve?_text_eq_settledFrom (anchor : Path) (renderable : path.isRenderable = true) :
    resolve? anchor path.text = some (settledFrom anchor path) := by
  have sameText : (settledFrom anchor path).text = path.text := by
    rw [text, text, spell_settledFrom]
  rw [← sameText]
  exact resolve?_text ((isRenderable_settledFrom anchor path).trans renderable)
    (followKinds_settledFrom anchor path)

theorem exists_parse_text (catalog : Catalog) (anchor : Path)
    (renderable : path.isRenderable = true) (key : Option UInt16) :
    ∃ target, resolve? anchor path.text = some target ∧
      target.names = path.names ∧
      Expression.parse catalog (resolve? anchor) (String.ofList (Reference.spell ⟨path, key⟩)) =
        .ok (.reference ⟨target, key⟩ ⟨0, Text.byteLength (Reference.spell ⟨path, key⟩)⟩) := by
  have resolves := resolve?_text_eq_settledFrom anchor renderable
  exact ⟨_, resolves, names_settledFrom anchor path,
    Expression.parse_spell_reference renderable resolves key⟩

end Path

namespace Dialect

variable {catalog : Catalog} {owner : Path} {text : String} {formula : Formula}
  {target : Reference} {span : Span}

/-- What a formula denotes for an owner that can be written can be written. -/
theorem isRenderable_of_hasNode (renderable : owner.isRenderable = true)
    (read : (ofCatalog catalog).read text owner = .ok formula)
    (hasNode : formula.root.HasNode (.reference target span)) :
    target.path.isRenderable = true := by
  obtain ⟨root, parsed, rfl⟩ := read_eq_ok_iff.1 read
  obtain ⟨raw, resolved⟩ :=
    (Expression.isInherited_refersBy catalog _).of_parse parsed target span hasNode
  exact (Path.isRenderable_of_resolve? (isRenderable_parent renderable) resolved).1

/-- Paths without quotes in their names are those that can be written.  The text of one denotes it
from every anchor, alone and in braces.  From an anchor that can be written no text denotes another
path, so the formulas of an owner that can be written denote just the paths that can be, up to their
kinds. -/
theorem isRenderable_iff_written (catalog : Catalog) :
    (∀ (anchor path : Path) (key : Option UInt16), path.isRenderable = true →
      ∃ target, Path.resolve? anchor path.text = some target ∧
        target.names = path.names ∧
        Expression.parse catalog (Path.resolve? anchor)
            (String.ofList (Reference.spell ⟨path, key⟩)) =
          .ok (.reference ⟨target, key⟩ ⟨0, Text.byteLength (Reference.spell ⟨path, key⟩)⟩)) ∧
    (∀ (anchor path : Path) (raw : String), anchor.isRenderable = true →
      Path.resolve? anchor raw = some path → path.isRenderable = true) ∧
    (∀ (owner : Path) (text : String) (formula : Formula), owner.isRenderable = true →
      (ofCatalog catalog).read text owner = .ok formula → ∀ target span,
        formula.root.HasNode (.reference target span) →
          ∀ segment ∈ target.path.segments, '"' ∉ segment.name.toList) ∧
    ∀ owner path : Path, owner.isRenderable = true →
      (path.isRenderable = true ↔ ∃ text formula target span,
        (ofCatalog catalog).read text owner = .ok formula ∧
          formula.root.HasNode (.reference target span) ∧
          target.path.names = path.names) := by
  refine ⟨?_, ?_, ?_, ?_⟩
  · intro anchor path key renderable
    exact Path.exists_parse_text catalog anchor renderable key
  · intro anchor path raw renderable resolved
    exact (Path.isRenderable_of_resolve? renderable resolved).1
  · intro owner text formula renderable read target span hasNode
    exact Path.isRenderable_iff_not_mem.1 (isRenderable_of_hasNode renderable read hasNode)
  · intro owner path ownerRenderable
    constructor
    · intro renderable
      obtain ⟨target, -, names, parsed⟩ :=
        Path.exists_parse_text catalog owner.parent renderable none
      exact ⟨_, _, ⟨target, none⟩, _, read_eq_ok_iff.2 ⟨_, parsed, rfl⟩, .root, names⟩
    · rintro ⟨text, formula, target, span, read, hasNode, names⟩
      rw [← Path.isRenderable_congr names]
      exact isRenderable_of_hasNode ownerRenderable read hasNode

theorem written_dots_and_unwritten_quote :
    ∃ (anchor owner path quoted : Path) (target : Path) (span : Span),
      anchor.isRenderable = false ∧ owner.isRenderable = true ∧
      path.isRenderable = true ∧ path.text = "/\"..\"/\"a/(7) \"/\"\"" ∧
      Path.resolve? anchor path.text = some target ∧
      Expression.parse .standard (Path.resolve? anchor)
          "\x7b/\"..\"/\"a/(7) \"/\"\"(7)\x7d" =
        .ok (.reference ⟨target, some 7⟩ span) ∧
      quoted = ⟨[⟨.characteristic, "a\"b"⟩]⟩ ∧
      ¬ ∃ text formula other otherSpan, (ofCatalog .standard).read text owner = .ok formula ∧
        formula.root.HasNode (.reference other otherSpan) ∧
        other.path.names = quoted.names := by
  let anchor : Path := ⟨[⟨.part, "a\"b"⟩]⟩
  let owner : Path := ⟨[⟨.part, "P"⟩, ⟨.characteristic, "A"⟩]⟩
  let path : Path := ⟨[⟨.part, ".."⟩, ⟨.part, "a/(7) "⟩, ⟨.characteristic, ""⟩]⟩
  let quoted : Path := ⟨[⟨.characteristic, "a\"b"⟩]⟩
  obtain ⟨writes, -, -, exactly⟩ := isRenderable_iff_written .standard
  obtain ⟨target, resolved, -, parsed⟩ := writes anchor path (some 7) (by decide)
  have unwritten : ¬ quoted.isRenderable = true := by decide
  exact ⟨anchor, owner, path, quoted, target, _, by decide, by decide, by decide, by decide +kernel,
    resolved, parsed, rfl, fun found => unwritten ((exactly owner quoted (by decide)).2 found)⟩

end Dialect

end InspectionFormula
