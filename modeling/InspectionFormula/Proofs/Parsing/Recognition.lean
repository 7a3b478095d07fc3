import InspectionFormula.Proofs.Parsing.Soundness
import InspectionFormula.Proofs.Path.Resolution
import InspectionFormula.Proofs.Token.Partition

/-!
# The steps of a path, read twice

The tokens of a path write steps: each name its text, each pair of quotes the
text between them.  The text from the first of these tokens through the last one
is split into the same steps, and starts at the root if the tokens do.
-/

namespace InspectionFormula

namespace Grammar

section Writing

variable (source : List Char)

/-- The step that some tokens write: a name without quotes, or the source text between quotes. -/
inductive WritesStep : List Token → WrittenStep → Prop where
  | name {token : Token} (plain : token.isReserved = false) :
      WritesStep [token] ⟨token.text, false⟩
  | quoted {opening closing : Token} {inner : List Token} {name : List Char}
      (opens : opening.isSymbol '"' = true)
      (within : ∀ token ∈ inner, token.isSymbol '"' = false)
      (closes : closing.isSymbol '"' = true)
      (between : Text.slice? source opening.stop closing.start = some name) :
      WritesStep (opening :: inner ++ [closing]) ⟨name, true⟩

inductive WritesSteps : List Token → List WrittenStep → Prop where
  | one {tokens : List Token} {step : WrittenStep} (writes : WritesStep source tokens step) :
      WritesSteps tokens [step]
  | more {tokens last : List Token} {slash : Token} {steps : List WrittenStep} {step : WrittenStep}
      (earlier : WritesSteps tokens steps) (separates : slash.isSymbol '/' = true)
      (writes : WritesStep source last step) :
      WritesSteps (tokens ++ slash :: last) (steps ++ [step])

/-- The steps that the tokens of a path write, in their order. -/
inductive WritesPath : List Token → List WrittenStep → Prop where
  | root {slash : Token} (isSlash : slash.isSymbol '/' = true) : WritesPath [slash] []
  | relative {tokens : List Token} {steps : List WrittenStep}
      (writes : WritesSteps source tokens steps) : WritesPath tokens steps
  | absolute {slash : Token} {tokens : List Token} {steps : List WrittenStep}
      (isSlash : slash.isSymbol '/' = true) (writes : WritesSteps source tokens steps) :
      WritesPath (slash :: tokens) steps

/-- Whether the tokens of a path start with a slash. -/
def startsAtRoot (path : List Token) : Bool := path.head?.any fun token => token.isSymbol '/'

/-- Some tokens of a path and the text that they stand in say the same: the steps, whether they
start at the root, and whether the path is the root itself. -/
structure ReadsAlike (path : List Token) (part : List Char) : Prop where
  trimmed : Text.trim part = part
  steps : ∀ steps, WritesPath source path steps ↔ writtenSteps part = steps
  absolute : part.head? = some '/' ↔ startsAtRoot path = true
  root : part = ['/'] ↔ ∃ slash, path = [slash] ∧ slash.isSymbol '/' = true

end Writing

end Grammar

namespace Token

open Text Grammar

variable {catalog : Catalog} {offset : Nat} {text : List Char}
  {tokens early late inner more : List Token} {token opening closing : Token} {character : Char}

theorem LaidOut.isBlank (laidOut : LaidOut catalog offset text []) : IsBlank text := by
  cases laidOut with
  | blank isBlank => exact isBlank

theorem LaidOut.isInk (laidOut : LaidOut catalog offset text tokens) :
    ∀ token ∈ tokens, IsInk [] token.text := by
  induction laidOut with
  | blank => exact fun _ member => nomatch member
  | token isBlank isInk later same ih => exact List.forall_mem_cons.2 ⟨isInk.alone, ih⟩

/-- A token that starts where its text does. -/
theorem LaidOut.exists_eq_append (laidOut : LaidOut catalog token.start text tokens)
    (member : token ∈ tokens) : ∃ back, text = token.text ++ back := by
  obtain ⟨front, back, same, starts⟩ := laidOut.exists_text token member
  have none : front = [] := byteLength_eq_zero_iff.1 (by omega)
  exact ⟨back, by rw [same, none, List.nil_append]⟩

/-- A token that ends where its text does. -/
theorem LaidOut.exists_append_eq (laidOut : LaidOut catalog offset text tokens)
    (member : token ∈ tokens) (stops : offset + byteLength text = token.stop) :
    ∃ front, text = front ++ token.text := by
  obtain ⟨front, back, same, starts⟩ := laidOut.exists_text token member
  have none : back = [] := by
    apply byteLength_eq_zero_iff.1
    rw [same, byteLength_append, byteLength_append, stop, length] at stops
    omega
  exact ⟨front, by rw [same, none, List.append_nil]⟩

theorem LaidOut.head?_eq (laidOut : LaidOut catalog token.start text (token :: more)) :
    text.head? = token.text.head? := by
  obtain ⟨back, same⟩ := laidOut.exists_eq_append List.mem_cons_self
  have inked := (laidOut.isInk token List.mem_cons_self).nonempty
  rw [same, List.head?_append_of_ne_nil _ inked]

/-- A text starts with a reserved character if its first token, which stands at its start, is that
character. -/
theorem LaidOut.head?_eq_some_iff (laidOut : LaidOut catalog token.start text (token :: more))
    (reserved : Text.isReserved character = true) :
    text.head? = some character ↔ token.isSymbol character = true := by
  rw [laidOut.head?_eq]
  constructor
  · intro starts
    have single := (laidOut.isInk token List.mem_cons_self).eq_of_head starts reserved
    simpa [isSymbol] using single
  · intro symbol
    rw [text_of_isSymbol symbol]
    rfl

/-- Nothing but blanks can be trimmed off, and a text from its first token through its last one has
none at its ends. -/
theorem LaidOut.trim_eq_self (laidOut : LaidOut catalog (startOf tokens) text tokens)
    (nonempty : tokens ≠ []) (stops : startOf tokens + byteLength text = stopOf tokens) :
    trim text = text := by
  obtain ⟨first, more, rfl⟩ := List.exists_cons_of_ne_nil nonempty
  obtain ⟨last, isLast⟩ : ∃ last, (first :: more).getLast? = some last :=
    ⟨_, List.getLast?_eq_some_getLast nonempty⟩
  have member := List.mem_of_getLast? isLast
  have lastStops : startOf (first :: more) + byteLength text = last.stop := by
    rw [stops, stopOf, isLast]
    rfl
  obtain ⟨front, same⟩ := laidOut.exists_append_eq member lastStops
  have firstInk := laidOut.isInk first List.mem_cons_self
  have lastInk := laidOut.isInk last member
  rw [trim_eq_self_iff]
  constructor
  · rw [LaidOut.head?_eq laidOut]
    exact (trim_eq_self_iff.1 firstInk.trimmed).1
  · rw [same, List.getLast?_append_of_ne_nil _ lastInk.nonempty]
    exact (trim_eq_self_iff.1 lastInk.trimmed).2

/-- A text is one reserved character if it has one token, from its start to its end, and this is
that character. -/
theorem LaidOut.eq_singleton_iff (laidOut : LaidOut catalog (startOf tokens) text tokens)
    (stops : startOf tokens + byteLength text = stopOf tokens)
    (reserved : Text.isReserved character = true) :
    text = [character] ↔ ∃ token, tokens = [token] ∧ token.isSymbol character = true := by
  constructor
  · rintro rfl
    have scanned := laidOut.scanFrom_eq
    rw [scanFrom_cons_reserved _ reserved] at scanned
    exact ⟨_, scanned.symm, by simp [isSymbol, ofText]⟩
  · rintro ⟨token, rfl, symbol⟩
    obtain ⟨back, same⟩ := LaidOut.exists_eq_append laidOut List.mem_cons_self
    have none : back = [] := by
      apply byteLength_eq_zero_iff.1
      rw [same, byteLength_append, startOf_cons, stopOf_singleton, stop, length] at stops
      omega
    rw [same, none, text_of_isSymbol symbol]
    rfl

/-- A token of one character divides a text and its tokens. -/
theorem LaidOut.exists_split (laidOut : LaidOut catalog offset text (early ++ token :: late))
    (isSymbol : token.isSymbol character = true) :
    ∃ front back, text = front ++ character :: back ∧ token.start = offset + byteLength front ∧
      token.stop = offset + byteLength front + byteLength [character] ∧
      LaidOut catalog offset front early ∧ LaidOut catalog token.stop back late := by
  induction early generalizing offset text with
  | nil =>
      cases laidOut with
      | @token _ _ blanks ink rest _ isBlank isInk later same =>
          obtain rfl : ink = [character] := text_of_isSymbol isSymbol
          rw [byteLength_append, ← Nat.add_assoc] at later
          exact ⟨blanks, rest, by simp [same], rfl, rfl, .blank isBlank, later⟩
  | cons first early ih =>
      cases laidOut with
      | @token _ _ blanks ink rest _ isBlank isInk later same =>
          obtain ⟨front, back, rfl, starts, stops, earlier, later⟩ := ih later
          refine ⟨blanks ++ ink ++ front, back, by simp [same], ?_, ?_,
            .token isBlank isInk.left earlier rfl, later⟩
          · rw [starts, byteLength_append _ front, Nat.add_assoc]
          · rw [stops, byteLength_append _ front, Nat.add_assoc offset]

/-- A text with one token that is not reserved is that token with blanks around it. -/
theorem LaidOut.of_name (laidOut : LaidOut catalog offset text [token])
    (plain : token.isReserved = false) :
    (∀ character ∈ text, Text.isReserved character = false) ∧ trim text = token.text ∧
      token.text ≠ [] := by
  cases laidOut with
  | @token _ _ blanks ink rest _ isBlank isInk later same =>
      cases isInk with
      | reserved reserved => exact Bool.noConfusion (plain.symm.trans reserved)
      | word isWord =>
          refine ⟨?_, ?_, isWord.nonempty⟩
          · intro character member
            rw [same, List.mem_append, List.mem_append] at member
            rcases member with (before | within) | after
            · exact isReserved_of_isWhiteSpace (isBlank character before)
            · exact isWord.unreserved character within
            · exact isReserved_of_isWhiteSpace (later.isBlank character after)
          · rw [same, trim_append_of_isBlank later.isBlank, trim_blank_append isBlank]
            exact isWord.trimmed

theorem LaidOut.not_mem (laidOut : LaidOut catalog offset text tokens)
    (within : ∀ token ∈ tokens, token.isSymbol character = false)
    (isReserved : Text.isReserved character = true) : character ∉ text := by
  intro member
  obtain ⟨front, back, same⟩ := List.append_of_mem member
  have scanned := laidOut.scanFrom_eq
  have found : ofText catalog (offset + byteLength front) [character] ∈ tokens := by
    rw [← scanned, mem_scanFrom_iff]
    exact .reserved isReserved same
  have symbol := within _ found
  simp [isSymbol, ofText] at symbol

/-- A text whose tokens are in quotes has nothing but blanks outside of them. -/
theorem LaidOut.of_quoted (laidOut : LaidOut catalog offset text (opening :: inner ++ [closing]))
    (opens : opening.isSymbol '"' = true) (within : ∀ token ∈ inner, token.isSymbol '"' = false)
    (closes : closing.isSymbol '"' = true) :
    ∃ before name after, text = before ++ '"' :: (name ++ '"' :: after) ∧ IsBlank before ∧
      IsBlank after ∧ '"' ∉ name ∧
      opening.stop = offset + byteLength before + byteLength ['"'] ∧
      closing.start = opening.stop + byteLength name := by
  have first : LaidOut catalog offset text ([] ++ opening :: (inner ++ [closing])) := laidOut
  obtain ⟨before, tail, rfl, -, stops, blankBefore, second⟩ := first.exists_split opens
  obtain ⟨name, after, rfl, starts, -, between, blankAfter⟩ := second.exists_split closes
  refine ⟨before, name, after, rfl, blankBefore.isBlank, blankAfter.isBlank,
    between.not_mem within (by decide), stops, starts⟩

end Token

namespace Grammar

open Text Token

variable {catalog : Catalog} {source text part : List Char} {offset : Nat}
  {tokens path : List Token} {step : WrittenStep} {steps : List WrittenStep}

theorem exists_writesStep (isStep : IsStep tokens) (laidOut : LaidOut catalog offset text tokens)
    (standsAt : StandsAt source offset text) : ∃ step, WritesStep source tokens step := by
  cases isStep with
  | name plain => exact ⟨_, .name plain⟩
  | quoted opens within closes =>
      obtain ⟨before, name, after, rfl, -, -, -, stops, starts⟩ :=
        laidOut.of_quoted opens within closes
      have between := standsAt.after.left.slice?_eq
      rw [← stops, ← starts] at between
      exact ⟨_, .quoted opens within closes between⟩

/-- The step that tokens write is the one that is read from their text. -/
theorem writtenSteps_of_writesStep (writes : WritesStep source tokens step)
    (laidOut : LaidOut catalog offset text tokens) (standsAt : StandsAt source offset text) :
    EndsUnquoted text ∧ writtenSteps text = [step] := by
  cases writes with
  | name plain =>
      obtain ⟨unreserved, trimmed, nonempty⟩ := laidOut.of_name plain
      refine ⟨endsUnquoted_of_unreserved unreserved, ?_⟩
      rw [← trimmed] at nonempty ⊢
      exact writtenSteps_of_unreserved unreserved nonempty
  | quoted opens within closes between =>
      obtain ⟨before, name, after, rfl, blankBefore, blankAfter, unquoted, stops, starts⟩ :=
        laidOut.of_quoted opens within closes
      rw [starts, stops, standsAt.after.left.slice?_eq] at between
      obtain rfl := Option.some.inj between
      exact ⟨endsUnquoted_quoted blankBefore blankAfter unquoted,
        writtenSteps_quoted blankBefore blankAfter unquoted⟩

/-- A slash divides the tokens around it and the part of the source that they stand in. -/
theorem exists_around_slash {early late : List Token} {slash : Token}
    (laidOut : LaidOut catalog offset text (early ++ slash :: late))
    (isSlash : slash.isSymbol '/' = true) (standsAt : StandsAt source offset text) :
    ∃ front back, text = front ++ '/' :: back ∧ LaidOut catalog offset front early ∧
      StandsAt source offset front ∧ LaidOut catalog slash.stop back late ∧
      StandsAt source slash.stop back := by
  obtain ⟨front, back, rfl, -, stops, earlier, later⟩ := laidOut.exists_split isSlash
  refine ⟨front, back, rfl, earlier, standsAt.left, later, ?_⟩
  rw [stops]
  exact standsAt.after

theorem exists_writesSteps (areSteps : AreSteps tokens)
    (laidOut : LaidOut catalog offset text tokens) (standsAt : StandsAt source offset text) :
    ∃ steps, WritesSteps source tokens steps := by
  induction areSteps generalizing text with
  | one isStep =>
      obtain ⟨step, writes⟩ := exists_writesStep isStep laidOut standsAt
      exact ⟨[step], .one writes⟩
  | more areSteps separates isStep ih =>
      obtain ⟨front, back, rfl, earlier, frontStands, last, backStands⟩ :=
        exists_around_slash laidOut separates standsAt
      obtain ⟨steps, writesEarlier⟩ := ih earlier frontStands
      obtain ⟨step, writes⟩ := exists_writesStep isStep last backStands
      exact ⟨steps ++ [step], .more writesEarlier separates writes⟩

theorem writtenSteps_of_writesSteps (writes : WritesSteps source tokens steps)
    (laidOut : LaidOut catalog offset text tokens) (standsAt : StandsAt source offset text) :
    EndsUnquoted text ∧ writtenSteps text = steps := by
  induction writes generalizing text with
  | one writes => exact writtenSteps_of_writesStep writes laidOut standsAt
  | more writesEarlier separates writes ih =>
      obtain ⟨front, back, rfl, earlier, frontStands, last, backStands⟩ :=
        exists_around_slash laidOut separates standsAt
      obtain ⟨frontEnds, frontSteps⟩ := ih earlier frontStands
      obtain ⟨backEnds, backSteps⟩ := writtenSteps_of_writesStep writes last backStands
      refine ⟨frontEnds.append_slash backEnds, ?_⟩
      rw [writtenSteps_append_slash frontEnds, frontSteps, backSteps]

theorem exists_writesPath (isPath : IsPath path) (laidOut : LaidOut catalog offset text path)
    (standsAt : StandsAt source offset text) : ∃ steps, WritesPath source path steps := by
  cases isPath with
  | root isSlash => exact ⟨[], .root isSlash⟩
  | relative areSteps =>
      obtain ⟨steps, writes⟩ := exists_writesSteps areSteps laidOut standsAt
      exact ⟨steps, .relative writes⟩
  | @absolute slash tokens isSlash areSteps =>
      have split : LaidOut catalog offset text ([] ++ slash :: tokens) := laidOut
      obtain ⟨front, back, -, -, -, later, backStands⟩ :=
        exists_around_slash split isSlash standsAt
      obtain ⟨steps, writes⟩ := exists_writesSteps areSteps later backStands
      exact ⟨steps, .absolute isSlash writes⟩

/-- The steps that the tokens of a path write are those that are read from their text. -/
theorem writtenSteps_of_writesPath (writes : WritesPath source path steps)
    (laidOut : LaidOut catalog offset text path) (standsAt : StandsAt source offset text) :
    writtenSteps text = steps := by
  cases writes with
  | @root slash isSlash =>
      have split : LaidOut catalog offset text ([] ++ [slash]) := laidOut
      obtain ⟨front, back, rfl, blankFront, -, blankBack, -⟩ :=
        exists_around_slash split isSlash standsAt
      rw [writtenSteps_blank_append_slash blankFront.isBlank,
        writtenSteps_of_isBlank blankBack.isBlank]
  | relative writes => exact (writtenSteps_of_writesSteps writes laidOut standsAt).2
  | @absolute slash tokens steps isSlash writes =>
      have split : LaidOut catalog offset text ([] ++ slash :: tokens) := laidOut
      obtain ⟨front, back, rfl, blankFront, -, later, backStands⟩ :=
        exists_around_slash split isSlash standsAt
      rw [writtenSteps_blank_append_slash blankFront.isBlank,
        (writtenSteps_of_writesSteps writes later backStands).2]

/-- The tokens of a path and the text that they stand in say the same. -/
theorem readsAlike_of_isPath (isPath : IsPath path)
    (laidOut : LaidOut catalog (startOf path) part path)
    (stops : startOf path + byteLength part = stopOf path)
    (standsAt : StandsAt source (startOf path) part) : ReadsAlike source path part where
  trimmed := laidOut.trim_eq_self isPath.ne_nil stops
  steps steps := by
    constructor
    · exact fun writes => writtenSteps_of_writesPath writes laidOut standsAt
    · rintro rfl
      obtain ⟨steps, writes⟩ := exists_writesPath isPath laidOut standsAt
      rwa [writtenSteps_of_writesPath writes laidOut standsAt]
  absolute := by
    obtain ⟨first, more, rfl⟩ := List.exists_cons_of_ne_nil isPath.ne_nil
    exact LaidOut.head?_eq_some_iff laidOut (by decide)
  root := laidOut.eq_singleton_iff stops (by decide)

/-- A text that says the same as the tokens of a path resolves to where their steps lead. -/
theorem ReadsAlike.resolve?_eq (alike : ReadsAlike source path part)
    (writes : WritesPath source path steps) (anchor : Path) :
    anchor.resolve? (String.ofList part) = anchor.resolveSteps? (startsAtRoot path) steps := by
  rw [Path.resolve?_eq, String.toList_ofList, alike.trimmed, (alike.steps steps).1 writes]
  congr 1
  rw [Bool.eq_iff_iff, beq_iff_eq, alike.absolute]

/-- A path among the tokens of a formula says the same as the text that it stands in. -/
theorem exists_readsAlike {formula : String} (isPath : IsPath path)
    (isRun : path <:+: Token.scan catalog formula) :
    ∃ part, Text.slice? formula.toList (startOf path) (stopOf path) = some part ∧
      ReadsAlike formula.toList path part := by
  obtain ⟨early, part, late, parts, starts, stops, laidOut⟩ :=
    (Token.laidOut_scan catalog formula).exists_part isRun isPath.ne_nil
  rw [Nat.zero_add] at starts
  have standsAt : StandsAt formula.toList (startOf path) part := ⟨early, late, parts, starts⟩
  have isPart := standsAt.slice?_eq
  rw [stops] at isPart
  exact ⟨part, isPart, readsAlike_of_isPath isPath laidOut stops standsAt⟩

end Grammar

open Grammar

/-- The start, the end and the key of a reference that a closing brace ends. -/
def Phase.ended? : Phase → Option (ReferenceStart × Nat × Option UInt16)
  | .afterRoot start pathStop | .afterStep start pathStop => some (start, pathStop, none)
  | .keyClosed start pathStop key => some (start, pathStop, some key)
  | _ => none

section Ended

variable {phase : Phase} {operandTokens : List Token} {start : ReferenceStart} {pathStop : Nat}
  {key : Option UInt16}

theorem OperandRead.exists_path (operandRead : OperandRead phase operandTokens)
    (ended : phase.ended? = some (start, pathStop, key)) :
    ∃ opening path keyTokens, operandTokens = opening :: path ++ keyTokens ∧
      opening.isSymbol '{' = true ∧ IsPath path ∧ IsKey keyTokens key ∧
      start = ⟨opening.span, startOf path⟩ ∧ pathStop = stopOf path := by
  cases operandRead with
  | @afterRoot opening slash opens isSlash =>
      cases ended
      exact ⟨opening, [slash], [], rfl, opens, .root isSlash, .none, rfl, rfl⟩
  | @afterStep opening path opens isStepped =>
      cases ended
      exact ⟨opening, path, [], by simp, opens, isStepped.isPath, .none, rfl, rfl⟩
  | @keyClosed opening path bracketed _ opens isPath isKey =>
      cases ended
      exact ⟨opening, path, bracketed, rfl, opens, isPath, isKey, rfl, rfl⟩
  | _ => cases ended

/-- A closing brace ends a reference that may end. -/
theorem ParseState.read_of_ended {rules : ReferenceRules} {state : ParseState} {closing : Token}
    (ended : state.phase.ended? = some (start, pathStop, key))
    (closes : closing.isSymbol '}' = true) :
    ParseState.read rules state closing =
      (rules.reference start pathStop key closing).bind (supply state.outer state.level) := by
  have closed : closeReference rules state start pathStop key closing =
      (rules.reference start pathStop key closing).bind (supply state.outer state.level) := by
    rw [closeReference, if_pos closes]
    rfl
  rw [← closed]
  obtain ⟨outer, level, phase⟩ := state
  cases phase <;> cases ended <;>
    simp [ParseState.read, readAfterPath, Token.isSymbol_eq_beq closes]

end Ended

namespace ParseState

/-- The tokens of a reference that may end are the last ones that have been read. -/
theorem exists_path_of_readEach {rules : ReferenceRules} {front : List Token} {state : ParseState}
    {start : ReferenceStart} {pathStop : Nat} {key : Option UInt16}
    (reached : readEach rules initial front = .ok state)
    (ended : state.phase.ended? = some (start, pathStop, key)) :
    ∃ before opening path keyTokens, front = before ++ (opening :: path ++ keyTokens) ∧
      opening.isSymbol '{' = true ∧ IsPath path ∧ IsKey keyTokens key ∧
      start = ⟨opening.span, startOf path⟩ ∧ pathStop = stopOf path := by
  have stateRead := stateRead_of_readEach stateRead_start reached
  rw [List.nil_append] at stateRead
  cases stateRead with
  | factor | term => cases ended
  | @operand outer level phase _ outerTokens levelTokens operandTokens _ _ operandRead same =>
      obtain ⟨opening, path, keyTokens, rfl, found⟩ := operandRead.exists_path ended
      exact ⟨outerTokens ++ levelTokens, opening, path, keyTokens, same, found⟩

/-- Whenever a brace closes a reference, the text that is resolved is that of the tokens of its
path, and both say the same: the steps, whether they start at the root, and whether there is nothing
but the root. -/
theorem closed_reference_reads_alike {catalog : Catalog} {resolve : String → Option Path}
    {formula : String} {front rest : List Token} {closing : Token} {state : ParseState}
    {start : ReferenceStart} {pathStop : Nat} {key : Option UInt16}
    (scanned : Token.scan catalog formula = front ++ closing :: rest)
    (reached : readEach ⟨formula.toList, resolve⟩ initial front = .ok state)
    (ended : state.phase.ended? = some (start, pathStop, key))
    (closes : closing.isSymbol '}' = true) :
    ∃ (before : List Token) (opening : Token) (path keyTokens : List Token) (part : List Char),
      front = before ++ (opening :: path ++ keyTokens) ∧ opening.isSymbol '{' = true ∧
      IsPath path ∧ IsKey keyTokens key ∧
      start = ⟨opening.span, startOf path⟩ ∧ pathStop = stopOf path ∧
      Text.slice? formula.toList start.pathStart pathStop = some part ∧
      ReadsAlike formula.toList path part ∧
      (∀ steps, WritesPath formula.toList path steps → ∀ anchor : Path,
        anchor.resolve? (String.ofList part) = anchor.resolveSteps? (startsAtRoot path) steps) ∧
      ParseState.read ⟨formula.toList, resolve⟩ state closing =
        match resolve (String.ofList part) with
        | some target => supply state.outer state.level
            (.reference ⟨target, key⟩ (opening.span.through closing.span))
        | none => .error ⟨.unresolvedPath (String.ofList part), start.pathStart⟩ := by
  obtain ⟨before, opening, path, keyTokens, rfl, opens, isPath, isKey, rfl, rfl⟩ :=
    exists_path_of_readEach reached ended
  have isRun : path <:+: Token.scan catalog formula :=
    ⟨before ++ [opening], keyTokens ++ closing :: rest, by simp [scanned]⟩
  obtain ⟨part, isPart, alike⟩ := exists_readsAlike isPath isRun
  refine ⟨before, opening, path, keyTokens, part, rfl, opens, isPath, isKey, rfl, rfl, isPart,
    alike, fun _ writes => alike.resolve?_eq writes, ?_⟩
  rw [read_of_ended ended closes]
  simp only [ReferenceRules.reference, ReferenceRules.raw, isPart, Option.getD_some]
  cases resolve (String.ofList part) <;> rfl

theorem closed_reference_after_quoted_brace :
    ∃ (formula : String) (front rest : List Token) (closing : Token) (state : ParseState)
      (start : ReferenceStart) (path : List Token) (part : List Char),
      formula = "2*\x7b / \"a /\x7d\" /ü (7)\x7d+1" ∧
      Token.scan .standard formula = front ++ closing :: rest ∧
      readEach ⟨formula.toList, Path.resolve? .root⟩ initial front = .ok state ∧
      state.phase.ended? = some (start, 16, some 7) ∧ closing.isSymbol '}' = true ∧
      part = "/ \"a /\x7d\" /ü".toList ∧ ReadsAlike formula.toList path part ∧
      WritesPath formula.toList path [⟨"a /\x7d".toList, true⟩, ⟨"ü".toList, false⟩] := by
  let formula := "2*\x7b / \"a /\x7d\" /ü (7)\x7d+1"
  let tokens := Token.scan .standard formula
  have closed : (tokens[14]?).any (fun token => token.isSymbol '}') = true := by decide +kernel
  obtain ⟨closing, isClosing, closes⟩ := (Option.any_eq_true ..).1 closed
  have split : tokens = tokens.take 14 ++ closing :: tokens.drop 15 := by
    obtain ⟨inRange, rfl⟩ := List.getElem?_eq_some_iff.1 isClosing
    rw [← List.drop_eq_getElem_cons inRange, List.take_append_drop]
  have accepted : (readEach ⟨formula.toList, Path.resolve? .root⟩ initial
      (tokens.take 14)).toOption.any (fun state => state.phase.ended?.any
        fun found => found.1.pathStart == 4 && found.2 == (16, some 7)) = true := by
    decide +kernel
  obtain ⟨state, reached, ends⟩ := exists_eq_ok_of_any accepted
  obtain ⟨⟨start, pathStop, key⟩, ended, places⟩ := (Option.any_eq_true ..).1 ends
  simp only [Bool.and_eq_true, beq_iff_eq, Prod.mk.injEq] at places
  obtain ⟨starts, rfl, rfl⟩ := places
  obtain ⟨_, _, path, _, part, -, -, -, -, -, -, isPart, alike, -⟩ :=
    closed_reference_reads_alike split reached ended closes
  have cut : Text.slice? formula.toList 4 16 = some "/ \"a /\x7d\" /ü".toList := by
    decide +kernel
  rw [starts, cut] at isPart
  obtain rfl := Option.some.inj isPart
  have writes : WritesPath formula.toList path
      [⟨"a /\x7d".toList, true⟩, ⟨"ü".toList, false⟩] :=
    (alike.steps _).2 (by decide +kernel)
  exact ⟨formula, _, _, closing, state, start, path, _, rfl, split, reached, ended, closes, rfl,
    alike, writes⟩

end ParseState

end InspectionFormula
