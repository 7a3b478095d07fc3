import Mathlib.Logic.Relation
import InspectionFormula.Dialect
import InspectionFormula.Proofs.Parsing.Places

/-!
# White space between symbols

White space at the ends of a text and around reserved characters changes where
tokens stand and nothing else.  It gets into the texts of references, but without
quotes these say no more than the tokens of their paths.
-/

namespace InspectionFormula

namespace Text

/-- White space is put at an end of a text, or next to a reserved character. -/
inductive InsertsBlanks : List Char → List Char → Prop where
  | atStart {blanks text : List Char} (isBlank : IsBlank blanks) :
      InsertsBlanks text (blanks ++ text)
  | atEnd {blanks text : List Char} (isBlank : IsBlank blanks) :
      InsertsBlanks text (text ++ blanks)
  | before {front blanks back : List Char} {reserved : Char} (isBlank : IsBlank blanks)
      (isReserved : isReserved reserved = true) :
      InsertsBlanks (front ++ reserved :: back) (front ++ blanks ++ reserved :: back)
  | after {front blanks back : List Char} {reserved : Char} (isBlank : IsBlank blanks)
      (isReserved : isReserved reserved = true) :
      InsertsBlanks (front ++ reserved :: back) (front ++ reserved :: (blanks ++ back))

end Text

namespace Token

open Text

variable {catalog : Catalog} {text other : List Char}

theorem map_placeless_ofPiece? (offset another : Nat) (piece : List Char) :
    (ofPiece? catalog offset piece).toList.map placeless =
      (ofPiece? catalog another piece).toList.map placeless := by
  simp only [ofPiece?]
  split <;> rfl

/-- Where a text stands decides about the places of its tokens only. -/
theorem map_placeless_ofPieces (offset another : Nat) (pieces : List (List Char)) :
    (ofPieces catalog offset pieces).map placeless =
      (ofPieces catalog another pieces).map placeless := by
  induction pieces generalizing offset another with
  | nil => rfl
  | cons piece pieces ih =>
      simp only [ofPieces, List.map_append]
      rw [map_placeless_ofPiece? offset another, ih _ (another + byteLength piece)]

theorem map_placeless_scanFrom (offset another : Nat) (text : List Char) :
    (scanFrom catalog offset text).map placeless =
      (scanFrom catalog another text).map placeless :=
  map_placeless_ofPieces offset another (pieces text)

/-- White space next to symbols is no part of any token. -/
theorem map_placeless_of_insertsBlanks (inserts : InsertsBlanks text other) :
    (scanFrom catalog 0 other).map placeless = (scanFrom catalog 0 text).map placeless := by
  cases inserts with
  | atStart isBlank =>
      rw [scanFrom_blank_append isBlank]
      exact map_placeless_scanFrom _ _ _
  | atEnd isBlank => rw [scanFrom_append_of_isBlank isBlank]
  | before isBlank isReserved =>
      simp only [scanFrom_append_reserved _ _ isReserved, scanFrom_append_of_isBlank isBlank,
        List.map_append, List.map_cons]
      congr 2
      exact map_placeless_scanFrom _ _ _
  | after isBlank isReserved =>
      simp only [scanFrom_append_reserved _ _ isReserved, scanFrom_blank_append isBlank,
        List.map_append, List.map_cons]
      congr 2
      exact map_placeless_scanFrom _ _ _

theorem map_placeless_of_reflTransGen (inserts : Relation.ReflTransGen InsertsBlanks text other) :
    (scanFrom catalog 0 other).map placeless = (scanFrom catalog 0 text).map placeless := by
  induction inserts with
  | refl => rfl
  | tail _ last ih => exact (map_placeless_of_insertsBlanks last).trans ih

end Token

namespace Grammar

variable {source : List Char} {path others tokens : List Token} {steps : List WrittenStep}
  {step : WrittenStep}

/-- No token is a quote. -/
def AreUnquoted (tokens : List Token) : Prop := ∀ token ∈ tokens, token.isSymbol '"' = false

/-- The names between the slashes of a path. -/
def plainSteps (path : List Token) : List WrittenStep :=
  (path.filter fun token => !token.isSymbol '/').map fun token => ⟨token.text, false⟩

theorem plainSteps_append (path others : List Token) :
    plainSteps (path ++ others) = plainSteps path ++ plainSteps others := by
  rw [plainSteps, List.filter_append, List.map_append]
  rfl

theorem plainSteps_cons_slash {slash : Token} (isSlash : slash.isSymbol '/' = true) :
    plainSteps (slash :: path) = plainSteps path := by
  rw [plainSteps, List.filter_cons_of_neg (by simp [isSlash])]
  rfl

theorem AreUnquoted.sublist (unquoted : AreUnquoted tokens) (among : path.Sublist tokens) :
    AreUnquoted path :=
  fun token member => unquoted token (among.subset member)

theorem WritesStep.eq_plainSteps (writes : WritesStep source path step)
    (unquoted : AreUnquoted path) : [step] = plainSteps path := by
  cases writes with
  | @name token plain =>
      have notSlash : token.isSymbol '/' = false := Token.isSymbol_eq_false plain rfl
      simp [plainSteps, notSlash]
  | @quoted opening _ _ _ opens =>
      rw [unquoted opening (by simp)] at opens
      cases opens

theorem WritesSteps.eq_plainSteps (writes : WritesSteps source path steps)
    (unquoted : AreUnquoted path) : steps = plainSteps path := by
  induction writes with
  | one writes => exact writes.eq_plainSteps unquoted
  | more earlier separates writes ih =>
      rw [plainSteps_append, plainSteps_cons_slash separates,
        ← ih (unquoted.sublist (List.sublist_append_left _ _)),
        ← writes.eq_plainSteps (unquoted.sublist
          ((List.sublist_cons_self _ _).trans (List.sublist_append_right _ _)))]

/-- Without quotes, the steps that a path writes are its names. -/
theorem WritesPath.eq_plainSteps (writes : WritesPath source path steps)
    (unquoted : AreUnquoted path) : steps = plainSteps path := by
  cases writes with
  | root isSlash => rw [plainSteps_cons_slash isSlash]; rfl
  | relative writes => exact writes.eq_plainSteps unquoted
  | absolute isSlash writes =>
      rw [plainSteps_cons_slash isSlash]
      exact writes.eq_plainSteps (unquoted.sublist (List.sublist_cons_self _ _))

/-- Where the tokens of a path without quotes lead. -/
def resolvePlain? (anchor : Path) (path : List Token) : Option Path :=
  anchor.resolveSteps? (startsAtRoot path) (plainSteps path)

/-- The text of a path in a formula denotes what its tokens lead to. -/
theorem resolve?_textThrough {catalog : Catalog} {formula : String} (anchor : Path)
    (isPath : IsPath path) (isRun : path <:+: Token.scan catalog formula)
    (unquoted : AreUnquoted path) :
    anchor.resolve? (textThrough formula.toList path) = resolvePlain? anchor path := by
  obtain ⟨part, isPart, alike⟩ := exists_readsAlike isPath isRun
  have writes := (alike.steps _).2 rfl
  rw [textThrough, isPart, Option.getD_some, alike.resolve?_eq writes,
    writes.eq_plainSteps unquoted]
  rfl

theorem plainSteps_map_placeless (path : List Token) :
    plainSteps (path.map Token.placeless) = plainSteps path := by
  rw [plainSteps, List.filter_map, List.map_map]
  rfl

theorem startsAtRoot_map_placeless (path : List Token) :
    startsAtRoot (path.map Token.placeless) = startsAtRoot path := by
  cases path <;> rfl

theorem resolvePlain?_of_placeless (anchor : Path)
    (same : others.map Token.placeless = path.map Token.placeless) :
    resolvePlain? anchor others = resolvePlain? anchor path := by
  rw [resolvePlain?, ← startsAtRoot_map_placeless, ← plainSteps_map_placeless, same,
    startsAtRoot_map_placeless, plainSteps_map_placeless]
  rfl

theorem AreUnquoted.of_placeless (unquoted : AreUnquoted tokens)
    (same : others.map Token.placeless = tokens.map Token.placeless) : AreUnquoted others := by
  intro token member
  have image : token.placeless ∈ tokens.map Token.placeless := by
    rw [← same]
    exact List.mem_map_of_mem member
  obtain ⟨found, isFound, alike⟩ := List.mem_map.1 image
  rw [← Token.isSymbol_of_placeless alike]
  exact unquoted found isFound

/-- No token opens a reference. -/
def AreUnbraced (tokens : List Token) : Prop := ∀ token ∈ tokens, token.isSymbol '{' = false

theorem AreUnbraced.append (areUnbraced : AreUnbraced path) (more : AreUnbraced others) :
    AreUnbraced (path ++ others) := by
  intro token member
  exact (List.mem_append.1 member).elim (areUnbraced token) (more token)

theorem areUnbraced_symbol {token : Token} {character : Char}
    (symbol : token.isSymbol character = true) (other : character ≠ '{') : AreUnbraced [token] := by
  intro found member
  rw [List.mem_singleton.1 member, Token.isSymbol_eq_beq symbol]
  exact beq_false_of_ne other

theorem IsStep.areUnbraced (isStep : IsStep path) (unquoted : AreUnquoted path) :
    AreUnbraced path := by
  cases isStep with
  | name plain =>
      intro found member
      rw [List.mem_singleton.1 member]
      exact Token.isSymbol_eq_false plain rfl
  | @quoted opening closing inner opens =>
      rw [unquoted opening (by simp)] at opens
      cases opens

theorem AreSteps.areUnbraced (areSteps : AreSteps path) (unquoted : AreUnquoted path) :
    AreUnbraced path := by
  induction areSteps with
  | one isStep => exact isStep.areUnbraced unquoted
  | more areSteps separates isStep ih =>
      have last := isStep.areUnbraced (unquoted.sublist
        ((List.sublist_cons_self _ _).trans (List.sublist_append_right _ _)))
      exact (ih (unquoted.sublist (List.sublist_append_left _ _))).append
        ((areUnbraced_symbol separates (by decide)).append last)

theorem IsPath.areUnbraced (isPath : IsPath path) (unquoted : AreUnquoted path) :
    AreUnbraced path := by
  cases isPath with
  | root isSlash => exact areUnbraced_symbol isSlash (by decide)
  | relative areSteps => exact areSteps.areUnbraced unquoted
  | absolute isSlash areSteps =>
      exact (areUnbraced_symbol isSlash (by decide)).append
        (areSteps.areUnbraced (unquoted.sublist (List.sublist_cons_self _ _)))

theorem IsKey.areUnbraced {key : Option UInt16} (isKey : IsKey tokens key) :
    AreUnbraced tokens := by
  cases isKey with
  | none => exact fun _ member => nomatch member
  | @some opening number closing value key opens isNumber isKey closes =>
      have digits : AreUnbraced [number] := by
        intro found member
        rw [List.mem_singleton.1 member]
        cases symbol : number.isSymbol '{' with
        | false => rfl
        | true =>
            have isDigit := isKey.digits '{' (by simp [Token.text_of_isSymbol symbol])
            cases isDigit
      exact (areUnbraced_symbol opens (by decide)).append
        (digits.append (areUnbraced_symbol closes (by decide)))

theorem IsKey.length_eq {key : Option UInt16} (isKey : IsKey tokens key)
    (otherKey : IsKey others key) : others.length = tokens.length := by
  cases isKey <;> cases otherKey <;> rfl

/-- The tokens after the last opening brace are the last ones that open no reference. -/
theorem takeWhile_reverse_of_brace {before inner : List Token} {opening : Token}
    (opens : opening.isSymbol '{' = true) (areUnbraced : AreUnbraced inner) :
    (before ++ opening :: inner).reverse.takeWhile (fun token => !token.isSymbol '{') =
      inner.reverse := by
  rw [List.reverse_append, List.reverse_cons, List.append_assoc, List.takeWhile_append_of_pos,
    List.singleton_append, List.takeWhile_cons_of_neg (by simp [opens]), List.append_nil]
  intro token member
  simpa using areUnbraced token (List.mem_reverse.1 member)

/-- Tokens that end with a reference determine what stands in it. -/
theorem map_placeless_of_brace {before otherBefore inner otherInner : List Token}
    {opening otherOpening : Token} (opens : opening.isSymbol '{' = true)
    (otherOpens : otherOpening.isSymbol '{' = true) (areUnbraced : AreUnbraced inner)
    (otherUnbraced : AreUnbraced otherInner)
    (same : (otherBefore ++ otherOpening :: otherInner).map Token.placeless =
      (before ++ opening :: inner).map Token.placeless) :
    otherInner.map Token.placeless = inner.map Token.placeless := by
  have found (tokens : List Token) :
      (tokens.reverse.takeWhile fun token => !token.isSymbol '{').map Token.placeless =
        (tokens.map Token.placeless).reverse.takeWhile fun token => !token.isSymbol '{' := by
    rw [← List.map_reverse, List.takeWhile_map]
    rfl
  have ends := found (otherBefore ++ otherOpening :: otherInner)
  rw [same, ← found, takeWhile_reverse_of_brace otherOpens otherUnbraced,
    takeWhile_reverse_of_brace opens areUnbraced, List.map_reverse, List.map_reverse] at ends
  exact List.reverse_injective ends

end Grammar

namespace ParseState

open Grammar

variable {catalog : Catalog} {text other : String} {anchor : Path} {front rest : List Token}
  {state otherState : ParseState} {rules : ReferenceRules} {start : ReferenceStart}
  {pathStop : Nat} {key : Option UInt16}

theorem raw_eq_textThrough (rules : ReferenceRules) (opening : Span) (path : List Token) :
    rules.raw ⟨opening, startOf path⟩ (stopOf path) = textThrough rules.source path := rfl

/-- The tokens of a text and of another one are the same but for their places, and none is a
quote. -/
structure SameTokens (catalog : Catalog) (text other : String) : Prop where
  same : (Token.scan catalog other).map Token.placeless =
    (Token.scan catalog text).map Token.placeless
  unquoted : AreUnquoted (Token.scan catalog text)

/-- References that have been read up to their ends alike denote the same paths. -/
theorem resolveAlike_of_readEach {otherFront otherRest : List Token}
    (sameTokens : SameTokens catalog text other)
    (scanned : Token.scan catalog text = front ++ rest)
    (otherScanned : Token.scan catalog other = otherFront ++ otherRest)
    (sameFront : otherFront.map Token.placeless = front.map Token.placeless)
    (reached : readEach ⟨text.toList, anchor.resolve?⟩ initial front = .ok state)
    (otherReached : readEach ⟨other.toList, anchor.resolve?⟩ initial otherFront =
      .ok otherState) :
    ResolveAlike ⟨text.toList, anchor.resolve?⟩ ⟨other.toList, anchor.resolve?⟩ state.phase
      otherState.phase := by
  intro start pathStop key otherStart otherStop ended otherEnded
  obtain ⟨before, opening, path, keyTokens, rfl, opens, isPath, isKey, rfl, rfl⟩ :=
    exists_path_of_readEach reached ended
  obtain ⟨otherBefore, otherOpening, otherPath, otherKeyTokens, rfl, otherOpens, otherIsPath,
    otherIsKey, rfl, rfl⟩ := exists_path_of_readEach otherReached otherEnded
  have isRun : path <:+: Token.scan catalog text :=
    ⟨before ++ [opening], keyTokens ++ rest, by simp [scanned]⟩
  have otherIsRun : otherPath <:+: Token.scan catalog other :=
    ⟨otherBefore ++ [otherOpening], otherKeyTokens ++ otherRest, by simp [otherScanned]⟩
  have unquoted := sameTokens.unquoted.sublist isRun.sublist
  have otherUnquoted :=
    (sameTokens.unquoted.of_placeless sameTokens.same).sublist otherIsRun.sublist
  have sameInner := map_placeless_of_brace opens otherOpens
    ((isPath.areUnbraced unquoted).append isKey.areUnbraced)
    ((otherIsPath.areUnbraced otherUnquoted).append otherIsKey.areUnbraced) sameFront
  rw [List.map_append, List.map_append] at sameInner
  have samePath : otherPath.map Token.placeless = path.map Token.placeless :=
    List.append_inj_left' sameInner (by simp [isKey.length_eq otherIsKey])
  rw [raw_eq_textThrough, raw_eq_textThrough]
  dsimp only
  rw [resolve?_textThrough anchor isPath isRun unquoted,
    resolve?_textThrough anchor otherIsPath otherIsRun otherUnquoted,
    resolvePlain?_of_placeless anchor samePath]

/-- The induction is on the tokens that are left.  Those that have been read say what the references
are that end. -/
theorem readEach_alike {otherFront otherRest : List Token}
    (sameTokens : SameTokens catalog text other)
    (scanned : Token.scan catalog text = front ++ rest)
    (otherScanned : Token.scan catalog other = otherFront ++ otherRest)
    (sameFront : otherFront.map Token.placeless = front.map Token.placeless)
    (sameRest : otherRest.map Token.placeless = rest.map Token.placeless)
    (reached : readEach ⟨text.toList, anchor.resolve?⟩ initial front = .ok state)
    (otherReached : readEach ⟨other.toList, anchor.resolve?⟩ initial otherFront = .ok otherState)
    (alike : state.Alike otherState) :
    Reading.Alike ParseState.Alike (readEach ⟨text.toList, anchor.resolve?⟩ state rest)
      (readEach ⟨other.toList, anchor.resolve?⟩ otherState otherRest) := by
  induction rest generalizing front otherFront otherRest state otherState with
  | nil =>
      cases List.map_eq_nil_iff.1 sameRest
      exact .ok alike
  | cons token rest ih =>
      obtain ⟨otherToken, otherLater, rfl, sameToken, sameLater⟩ := List.map_eq_cons_iff.1 sameRest
      have resolved := resolveAlike_of_readEach sameTokens scanned otherScanned sameFront reached
        otherReached
      have next := alike.read sameToken resolved
      rw [readEach_cons, readEach_cons]
      generalize read : ParseState.read ⟨text.toList, anchor.resolve?⟩ state token = outcome
        at next ⊢
      generalize otherRead : ParseState.read ⟨other.toList, anchor.resolve?⟩ otherState otherToken =
        otherOutcome at next ⊢
      cases next with
      | error => exact .error
      | ok afterAlike =>
          have scannedAfter : Token.scan catalog text = front ++ [token] ++ rest := by
            simp [scanned]
          have otherScannedAfter :
              Token.scan catalog other = otherFront ++ [otherToken] ++ otherLater := by
            simp [otherScanned]
          refine ih scannedAfter otherScannedAfter ?_ sameLater ?_ ?_ afterAlike
          · rw [List.map_append, List.map_append, sameFront, List.map_singleton, sameToken,
              List.map_singleton]
          · rw [readEach_append_of_ok reached, readEach_singleton, read]
          · rw [readEach_append_of_ok otherReached, readEach_singleton, otherRead]

end ParseState

open ParseState

/-- Texts with the same tokens and without quotes are read as the same tree, or not at all. -/
theorem Expression.parse_alike {catalog : Catalog} {text other : String}
    (sameTokens : SameTokens catalog text other) (anchor : Path) :
    Reading.Alike SameTree (parse catalog anchor.resolve? text)
      (parse catalog anchor.resolve? other) := by
  have scanned (text : String) : Token.scan catalog text = [] ++ Token.scan catalog text := rfl
  have states : Reading.Alike ParseState.Alike
      (readEach ⟨text.toList, anchor.resolve?⟩ initial (Token.scan catalog text))
      (readEach ⟨other.toList, anchor.resolve?⟩ initial (Token.scan catalog other)) :=
    readEach_alike sameTokens (scanned text) (scanned other) rfl sameTokens.same rfl rfl
      alike_initial
  exact states.bind fun _ _ alike => alike.finish _ _

theorem sameTokens_of_insertsBlanks {catalog : Catalog} {text other : String}
    (unquoted : '"' ∉ text.toList)
    (inserts : Relation.ReflTransGen Text.InsertsBlanks text.toList other.toList) :
    SameTokens catalog text other where
  same := Token.map_placeless_of_reflTransGen inserts
  unquoted token member := by
    cases symbol : token.isSymbol '"' with
    | false => rfl
    | true =>
        refine absurd (Token.mem_of_mem_scanFrom member ?_) unquoted
        simp [Token.text_of_isSymbol symbol]

namespace Dialect

/-- White space at the ends of a formula without quotes and around its symbols does not count.  The
formula is read with it exactly if it is read without it, and the trees differ in spans only. -/
theorem read_of_inserted_blanks {catalog : Catalog} {text other : String} (owner : Path)
    (unquoted : '"' ∉ text.toList)
    (inserts : Relation.ReflTransGen Text.InsertsBlanks text.toList other.toList) :
    ((∃ formula, (ofCatalog catalog).read text owner = .ok formula) ↔
      ∃ formula, (ofCatalog catalog).read other owner = .ok formula) ∧
    ∀ formula spaced, (ofCatalog catalog).read text owner = .ok formula →
      (ofCatalog catalog).read other owner = .ok spaced →
      spaced.root.eraseSpans = formula.root.eraseSpans := by
  have sameTokens : SameTokens catalog text other := sameTokens_of_insertsBlanks unquoted inserts
  have alike := Expression.parse_alike sameTokens owner.parent
  simp only [read_eq_ok_iff, ofCatalog]
  generalize Expression.parse catalog (Path.resolve? owner.parent) text = tree at alike ⊢
  generalize Expression.parse catalog (Path.resolve? owner.parent) other = spacedTree at alike ⊢
  cases alike with
  | error => simp
  | @ok root spacedRoot same =>
      constructor
      · exact ⟨fun _ => ⟨_, _, rfl, rfl⟩, fun _ => ⟨_, _, rfl, rfl⟩⟩
      · rintro _ _ ⟨_, ⟨⟩, rfl⟩ ⟨_, ⟨⟩, rfl⟩
        exact same

theorem read_of_inserted_blanks_in_reference :
    ∃ (text other : String) (owner target : Path) (formula spaced : Formula),
      text = "\x7b../B(7)\x7d*2" ∧ other = "\u00a0\x7b .. /\tB (7)\x7d*2 " ∧
      '"' ∉ text.toList ∧
      Relation.ReflTransGen Text.InsertsBlanks text.toList other.toList ∧
      (ofCatalog .standard).read text owner = .ok formula ∧
      (formula.root.children.head?.bind Expression.shape) = some ⟨target, some 7⟩ ∧
      (ofCatalog .standard).read other owner = .ok spaced ∧
      spaced.root.eraseSpans = formula.root.eraseSpans := by
  let text := "\x7b../B(7)\x7d*2"
  let other := "\u00a0\x7b .. /\tB (7)\x7d*2 "
  let owner : Path := ⟨[⟨.part, "P"⟩, ⟨.characteristic, "A"⟩]⟩
  let target : Path := ⟨[⟨.characteristic, "B"⟩]⟩
  have unquoted : '"' ∉ text.toList := by decide +kernel
  have inserts : Relation.ReflTransGen Text.InsertsBlanks text.toList other.toList := by
    have isBlank (blank : Char) (white : Text.isWhiteSpace blank = true) :
        Text.IsBlank [blank] := by
      simpa [Text.IsBlank] using white
    have start : text.toList = ['{', '.', '.', '/', 'B', '(', '7', ')', '}', '*', '2'] := by
      decide +kernel
    have finish : other.toList = ['\u00a0', '{', ' ', '.', '.', ' ', '/', '\t', 'B', ' ', '(', '7',
        ')', '}', '*', '2', ' '] := by
      decide +kernel
    rw [start, finish]
    have afterBrace := @Text.InsertsBlanks.after [] [' ']
      ['.', '.', '/', 'B', '(', '7', ')', '}', '*', '2'] '{' (isBlank ' ' rfl) rfl
    have beforeSlash := @Text.InsertsBlanks.before ['{', ' ', '.', '.'] [' ']
      ['B', '(', '7', ')', '}', '*', '2'] '/' (isBlank ' ' rfl) rfl
    have afterSlash := @Text.InsertsBlanks.after ['{', ' ', '.', '.', ' '] ['\t']
      ['B', '(', '7', ')', '}', '*', '2'] '/' (isBlank '\t' rfl) rfl
    have beforeKey := @Text.InsertsBlanks.before ['{', ' ', '.', '.', ' ', '/', '\t', 'B'] [' ']
      ['7', ')', '}', '*', '2'] '(' (isBlank ' ' rfl) rfl
    have ends := ((Relation.ReflTransGen.single afterBrace).tail beforeSlash).tail afterSlash
    exact ((ends.tail beforeKey).tail (.atEnd (isBlank ' ' rfl))).tail
      (.atStart (isBlank '\u00a0' rfl))
  have accepted : ((ofCatalog .standard).read text owner).toOption.any (fun formula =>
      formula.root.children.head?.bind Expression.shape = some ⟨target, some 7⟩) = true := by
    decide +kernel
  obtain ⟨formula, read, refers⟩ := exists_eq_ok_of_any accepted
  obtain ⟨sameReadings, sameTrees⟩ := read_of_inserted_blanks owner unquoted inserts
  obtain ⟨spaced, spacedRead⟩ := sameReadings.1 ⟨formula, read⟩
  exact ⟨text, other, owner, target, formula, spaced, rfl, rfl, unquoted, inserts, read,
    of_decide_eq_true refers, spacedRead, sameTrees formula spaced read spacedRead⟩

end Dialect

end InspectionFormula
