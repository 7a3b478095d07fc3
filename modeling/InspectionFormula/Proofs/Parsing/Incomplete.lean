import InspectionFormula.Dialect
import InspectionFormula.Proofs.Parsing.Ending

/-!
# Formulas that break off

A formula that is cut off after a token is read up to there as the whole formula
is, since the paths before the cut have the same texts.  If it does not end
there, what it lacks is missing at its end, except that a quote left open is at
fault itself.
-/

namespace InspectionFormula

open Grammar

namespace ReferenceRules

/-- Paths that end by a place are read alike. -/
structure AgreesUpTo (other rules : ReferenceRules) (limit : Nat) : Prop where
  resolve : other.resolve = rules.resolve
  slice? : ∀ start stop, stop ≤ limit →
    Text.slice? other.source start stop = Text.slice? rules.source start stop

theorem AgreesUpTo.reference {other rules : ReferenceRules} {limit pathStop : Nat}
    (agrees : other.AgreesUpTo rules limit) (before : pathStop ≤ limit) (start : ReferenceStart)
    (key : Option UInt16) (closing : Token) :
    other.reference start pathStop key closing = rules.reference start pathStop key closing := by
  simp only [ReferenceRules.reference, raw, agrees.resolve,
    agrees.slice? start.pathStart pathStop before]

end ReferenceRules

namespace ParseState

variable {rules other : ReferenceRules} {state last : ParseState} {tokens seen : List Token}
  {limit : Nat}

theorem pathStop_le_of_operandRead {phase : Phase} {pathStop : Nat}
    (operandRead : OperandRead phase tokens) (before : ∀ token ∈ tokens, token.stop ≤ limit)
    (ends : phase.pathStop? = some pathStop) : pathStop ≤ limit := by
  cases operandRead with
  | afterRoot =>
      cases ends
      exact before _ (by simp)
  | afterStep | keyStart | afterKey | keyClosed =>
      cases ends
      apply stopOf_le
      intro token member
      exact before token (by simp [member])
  | _ => cases ends

theorem pathStop_le_of_stateRead {pathStop : Nat} (stateRead : StateRead rules state tokens)
    (before : ∀ token ∈ tokens, token.stop ≤ limit)
    (ends : state.phase.pathStop? = some pathStop) : pathStop ≤ limit := by
  cases stateRead with
  | factor | term => cases ends
  | operand outerRead levelRead operandRead same =>
      apply pathStop_le_of_operandRead operandRead _ ends
      intro token member
      exact before token (by simp [same, member])

theorem closeReference_congr {start : ReferenceStart} {pathStop : Nat}
    (agrees : other.AgreesUpTo rules limit) (before : pathStop ≤ limit) (key : Option UInt16)
    (token : Token) :
    closeReference other state start pathStop key token =
      closeReference rules state start pathStop key token := by
  rw [closeReference, closeReference, agrees.reference before]

theorem readAfterPath_congr {start : ReferenceStart} {pathStop : Nat}
    (agrees : other.AgreesUpTo rules limit) (before : pathStop ≤ limit) (token : Token) :
    readAfterPath other state start pathStop token =
      readAfterPath rules state start pathStop token := by
  rw [readAfterPath, readAfterPath, closeReference_congr agrees before]

theorem read_congr (agrees : other.AgreesUpTo rules limit)
    (before : ∀ pathStop, state.phase.pathStop? = some pathStop → pathStop ≤ limit)
    (token : Token) : read other state token = read rules state token := by
  obtain ⟨outer, level, phase⟩ := state
  cases phase with
  | afterRoot start pathStop =>
      simp only [read, readAfterPath_congr agrees (before pathStop rfl)]
  | afterStep start pathStop =>
      simp only [read, readAfterPath_congr agrees (before pathStop rfl)]
  | keyClosed start pathStop key =>
      exact closeReference_congr agrees (before pathStop rfl) (some key) token
  | _ => rfl

theorem readEach_congr (agrees : other.AgreesUpTo rules limit)
    (stateRead : StateRead rules state seen) (before : ∀ token ∈ seen ++ tokens, token.stop ≤ limit)
    (reads : readEach rules state tokens = .ok last) : readEach other state tokens = .ok last := by
  induction tokens generalizing state seen with
  | nil => exact reads
  | cons token tokens ih =>
      obtain ⟨middle, step, rest⟩ := readEach_cons_eq_ok reads
      have same : read other state token = read rules state token := by
        apply read_congr agrees
        intro pathStop ends
        apply pathStop_le_of_stateRead stateRead _ ends
        intro earlier member
        exact before earlier (List.mem_append_left _ member)
      rw [readEach_cons_of_ok (same.trans step)]
      refine ih (stateRead_of_read stateRead step) ?_ rest
      rwa [List.append_assoc]

end ParseState

/-- A quote that is open before the rest of a formula is closed there. -/
theorem ParseState.Completes.exists_quote {rules : ReferenceRules} {outer : List Context}
    {level : Level} {start : ReferenceStart} {quote : Nat} {tokens : List Token}
    (completes : Completes rules ⟨outer, level, .insideQuotes start quote⟩ tokens) :
    ∃ more closing after, tokens = more ++ closing :: after ∧
      (∀ token ∈ more, token.isSymbol '"' = false) ∧ closing.isSymbol '"' = true := by
  obtain ⟨last, stop, value, reads, finished⟩ := completes
  induction tokens with
  | nil =>
      cases reads
      cases finished
  | cons token tokens ih =>
      cases isQuote : token.isSymbol '"' with
      | true => exact ⟨[], token, tokens, rfl, List.forall_mem_nil _, isQuote⟩
      | false =>
          obtain ⟨middle, step, rest⟩ := readEach_cons_eq_ok reads
          simp only [read, isQuote] at step
          cases step
          obtain ⟨more, closing, after, rfl, unquoted, closes⟩ := ih rest
          exact ⟨token :: more, closing, after, rfl, List.forall_mem_cons.2 ⟨isQuote, unquoted⟩,
            closes⟩

/-- A text is the start of another one, up to where one of the tokens there ends. -/
structure IsCut (catalog : Catalog) (text front : String) : Prop where
  isPrefix : front.toList <+: text.toList
  atToken : front = "" ∨
    ∃ token ∈ Token.stream catalog text, token.stop = Text.byteLength front.toList

/-- A text breaks off inside a quoted step of another one: after the quote that opens the step and
before the next quote, which closes it. -/
inductive BreaksInQuotes (catalog : Catalog) (text front : String) : Nat → Prop where
  | mk {before inner more after : List Token} {opening closing : Token}
      (outside : Token.openQuote? before = none) (opens : opening.isSymbol '"' = true)
      (within : ∀ token ∈ inner ++ more, token.isSymbol '"' = false)
      (closes : closing.isSymbol '"' = true)
      (sameFront : Token.scan catalog front = before ++ opening :: inner)
      (sameText : Token.scan catalog text =
        before ++ opening :: (inner ++ more) ++ closing :: after) :
      BreaksInQuotes catalog text front opening.start

variable {catalog : Catalog} {text front : String} {quote : Nat}

theorem IsCut.exists_scan (isCut : IsCut catalog text front) :
    ∃ later, Token.scan catalog text = Token.scan catalog front ++ later := by
  obtain ⟨⟨back, parts⟩, rfl | ⟨token, member, stops⟩⟩ := isCut
  · exact ⟨_, rfl⟩
  · rcases List.mem_append.1 member with member | ended
    · obtain ⟨earlier, later, same⟩ := List.append_of_mem member
      have regrouped : Token.scan catalog text = earlier ++ [token] ++ later := by simp [same]
      obtain ⟨part, rest, split, length, laidOut⟩ := (Token.laidOut_scan catalog text).exists_front
        ⟨later, regrouped.symm⟩ (by simp)
      -- Both cuts lie at the end of the token.
      have sameCut : some (part, rest) = some (front.toList, back) := by
        rw [← Text.splitBytes?_append, ← Text.splitBytes?_append, ← split, parts, ← stops]
        congr 1
        rw [stopOf_append _ (by simp), stopOf_singleton] at length
        omega
      obtain ⟨rfl, -⟩ := Prod.mk.inj (Option.some.inj sameCut)
      refine ⟨later, ?_⟩
      rw [regrouped, Token.scan_eq_scanFrom, laidOut.scanFrom_eq]
    · have length := congrArg Text.byteLength parts
      rw [List.mem_singleton.1 ended] at stops
      have whole : back = [] := by
        apply Text.byteLength_eq_zero_iff.1
        simp only [Token.stop, Token.length, Token.endOfInput, Text.byteLength_append,
          Text.byteLength_nil] at stops length
        omega
      rw [whole, List.append_nil, String.toList_inj] at parts
      exact ⟨[], by simp [parts]⟩

namespace Token

theorem foldl_quoteAfter {inner : List Token}
    (within : ∀ token ∈ inner, token.isSymbol '"' = false) (quote? : Option Nat) :
    inner.foldl quoteAfter quote? = quote? := by
  induction inner with
  | nil => rfl
  | cons token inner ih =>
      obtain ⟨first, others⟩ := List.forall_mem_cons.1 within
      rw [List.foldl_cons, quoteAfter_of_not_quote first]
      exact ih others

theorem openQuote?_append_quote {before inner : List Token} {opening : Token}
    (outside : openQuote? before = none) (opens : opening.isSymbol '"' = true)
    (within : ∀ token ∈ inner, token.isSymbol '"' = false) :
    openQuote? (before ++ opening :: inner) = some opening.start := by
  unfold openQuote? at *
  rw [List.foldl_append, outside, List.foldl_cons, foldl_quoteAfter within]
  simp [quoteAfter, opens]

end Token

theorem BreaksInQuotes.openQuote?_eq (breaks : BreaksInQuotes catalog text front quote) :
    Token.openQuote? (Token.scan catalog front) = some quote := by
  obtain ⟨outside, opens, within, -, sameFront, -⟩ := breaks
  rw [sameFront]
  apply Token.openQuote?_append_quote outside opens
  intro token member
  exact within token (List.mem_append_left _ member)

namespace Expression

variable {resolve : String → Option Path} {root : Expression}

/-- What the start of a formula leaves, and what is left of the formula. -/
structure ReadsFront (catalog : Catalog) (resolve : String → Option Path) (text front : String)
    (state : ParseState) (later : List Token) : Prop where
  same : Token.scan catalog text = Token.scan catalog front ++ later
  read : ParseState.readEach ⟨text.toList, resolve⟩ .initial (Token.scan catalog front) = .ok state
  readAlone :
    ParseState.readEach ⟨front.toList, resolve⟩ .initial (Token.scan catalog front) = .ok state
  completes : ParseState.Completes ⟨text.toList, resolve⟩ state later

theorem exists_readsFront (parsed : parse catalog resolve text = .ok root)
    (isCut : IsCut catalog text front) :
    ∃ state later, ReadsFront catalog resolve text front state later := by
  obtain ⟨later, same⟩ := isCut.exists_scan
  rw [parse, ofTokens?_eq, same, ParseState.readEach_append] at parsed
  obtain ⟨last, through, finished⟩ := exists_eq_ok_of_bind parsed
  obtain ⟨state, read, rest⟩ := exists_eq_ok_of_bind through
  have agrees : ReferenceRules.AgreesUpTo ⟨front.toList, resolve⟩ ⟨text.toList, resolve⟩
      (Text.byteLength front.toList) := by
    obtain ⟨back, parts⟩ := isCut.isPrefix
    refine ⟨rfl, fun start stop before => ?_⟩
    rw [← parts]
    exact (Text.slice?_append_left before back).symm
  refine ⟨state, later, same, read, ?_, last, _, root, rest, finished⟩
  apply ParseState.readEach_congr agrees stateRead_start _ read
  intro token member
  have := ((Token.laidOut_scan catalog front).within token member).2.2
  omega

theorem ReadsFront.parse_eq {state : ParseState} {later : List Token}
    (readsFront : ReadsFront catalog resolve text front state later) :
    parse catalog resolve front = state.finish (Text.byteLength front.toList) := by
  have read : ParseState.readEach ⟨front.toList, resolve⟩ ⟨[], .opened, .factor⟩
      (Token.scan catalog front) = .ok state := readsFront.readAlone
  rw [parse, ofTokens?_eq, read]
  rfl

theorem ReadsFront.quote?_eq {state : ParseState} {later : List Token}
    (readsFront : ReadsFront catalog resolve text front state later)
    (spares : catalog.SparesReserved) :
    state.phase.quote? = Token.openQuote? (Token.scan catalog front) :=
  ParseState.quote?_of_readEach
    (fun _ member => Token.isRegular_of_mem_scan spares member) readsFront.read

/-- A quote that is open somewhere in a formula opens a step that is closed later. -/
theorem ReadsFront.breaksInQuotes {outer : List Context} {level : Level} {start : ReferenceStart}
    {later : List Token} (spares : catalog.SparesReserved)
    (readsFront : ReadsFront catalog resolve text front ⟨outer, level, .insideQuotes start quote⟩
      later) :
    BreaksInQuotes catalog text front quote := by
  have isOpen : some quote = Token.openQuote? (Token.scan catalog front) :=
    readsFront.quote?_eq spares
  have stateRead := stateRead_of_readEach stateRead_start readsFront.read
  obtain ⟨more, closing, after, rfl, unquoted, closes⟩ := readsFront.completes.exists_quote
  cases stateRead with
  | @operand _ _ _ _ outerTokens levelTokens _ outerRead levelRead operandRead same =>
      cases operandRead with
      | @insideQuotes opening opener path inner opens isBeforeStep quotes within =>
          have sameFront : Token.scan catalog front =
              (outerTokens ++ levelTokens ++ opening :: path) ++ opener :: inner := by
            simpa using same
          have sameText : Token.scan catalog text =
              (outerTokens ++ levelTokens ++ opening :: path) ++
                opener :: (inner ++ more) ++ closing :: after := by
            rw [readsFront.same, sameFront]
            simp
          refine .mk ?_ quotes ?_ closes sameFront sameText
          · -- Another open quote would be closed by this one.
            cases earlier : Token.openQuote? (outerTokens ++ levelTokens ++ opening :: path) with
            | none => rfl
            | some other =>
                rw [sameFront, Token.openQuote?, List.foldl_append, ← Token.openQuote?, earlier,
                  List.foldl_cons, Token.foldl_quoteAfter within] at isOpen
                simp [Token.quoteAfter, quotes] at isOpen
          · intro token member
            exact (List.mem_append.1 member).elim (within token) (unquoted token)

theorem breaksInQuotes_iff (spares : catalog.SparesReserved)
    (parsed : parse catalog resolve text = .ok root) (isCut : IsCut catalog text front) :
    BreaksInQuotes catalog text front quote ↔
      Token.openQuote? (Token.scan catalog front) = some quote := by
  constructor
  · exact BreaksInQuotes.openQuote?_eq
  · intro isOpen
    obtain ⟨⟨outer, level, phase⟩, later, readsFront⟩ := exists_readsFront parsed isCut
    rw [← readsFront.quote?_eq spares] at isOpen
    cases phase with
    | insideQuotes =>
        cases isOpen
        exact readsFront.breaksInQuotes spares
    | _ => cases isOpen

end Expression

namespace Dialect

/-- The start of a formula, up to the end of a token, is a formula or lacks something at its end.
If it ends inside a quoted step, the quote that opens the step is unterminated. -/
theorem read_of_isCut {dialect : Dialect} (spares : dialect.catalog.SparesReserved)
    {text front : String} {owner : Path} {formula : Formula}
    (read : dialect.read text owner = .ok formula) (isCut : IsCut dialect.catalog text front) :
    (∀ quote, BreaksInQuotes dialect.catalog text front quote →
      dialect.read front owner = .error ⟨.unterminatedQuote, quote⟩) ∧
    ((∀ quote, ¬ BreaksInQuotes dialect.catalog text front quote) →
      (∃ other, dialect.read front owner = .ok other) ∨
      ∃ expected, dialect.read front owner =
        .error ⟨.missing expected none, Text.byteLength front.toList⟩) := by
  obtain ⟨root, parsed, -⟩ := read_eq_ok_iff.1 read
  obtain ⟨state, later, readsFront⟩ := Expression.exists_readsFront parsed isCut
  have readAlone : dialect.read front owner =
      (state.finish (Text.byteLength front.toList)).bind fun root => .ok ⟨root, front, owner⟩ := by
    rw [← readsFront.parse_eq]
    rfl
  have regular : ∀ token ∈ later, token.IsRegular := by
    intro token member
    apply Token.isRegular_of_mem_scan spares
    rw [readsFront.same]
    exact List.mem_append_right _ member
  have ending := readsFront.completes.finish_cases regular (Text.byteLength front.toList)
  rw [readsFront.quote?_eq spares] at ending
  constructor
  · intro quote breaks
    rw [breaks.openQuote?_eq] at ending
    rw [readAlone, ending]
    rfl
  · intro unbroken
    cases isOpen : Token.openQuote? (Token.scan dialect.catalog front) with
    | some quote =>
        exact absurd ((Expression.breaksInQuotes_iff spares parsed isCut).2 isOpen) (unbroken quote)
    | none =>
        rw [isOpen] at ending
        rcases ending with ⟨value, finished⟩ | ⟨expected, finished⟩
        · exact .inl ⟨_, by rw [readAlone, finished]; rfl⟩
        · exact .inr ⟨expected, by rw [readAlone, finished]; rfl⟩

theorem read_of_cut_reference :
    ∃ (text inQuotes inCall : String) (formula : Formula),
      text = "max(\x7b\"a b\"/c(3)\x7d; 2)" ∧ inQuotes = "max(\x7b\"a b" ∧
      inCall = "max(\x7b\"a b\"/c(3)\x7d;" ∧ standard.catalog.SparesReserved ∧
      standard.read text .root = .ok formula ∧
      IsCut standard.catalog text inQuotes ∧ BreaksInQuotes standard.catalog text inQuotes 5 ∧
      standard.read inQuotes .root = .error ⟨.unterminatedQuote, 5⟩ ∧
      IsCut standard.catalog text inCall ∧
      ∃ expected, standard.read inCall .root = .error ⟨.missing expected none, 17⟩ := by
  let text := "max(\x7b\"a b\"/c(3)\x7d; 2)"
  let inQuotes := "max(\x7b\"a b"
  let inCall := "max(\x7b\"a b\"/c(3)\x7d;"
  have spares : standard.catalog.SparesReserved := Catalog.standard_sparesReserved
  obtain ⟨formula, read, -⟩ := exists_eq_ok_of_any
    (show (standard.read text .root).toOption.any (fun _ => true) = true by decide +kernel)
  obtain ⟨root, parsed, -⟩ := read_eq_ok_iff.1 read
  have isCut (front : String) (isPrefix : front.toList.isPrefixOf text.toList = true)
      (atToken : (Token.stream standard.catalog text).any
        (fun token => token.stop == Text.byteLength front.toList) = true) :
      IsCut standard.catalog text front := by
    obtain ⟨token, member, stops⟩ := List.any_eq_true.1 atToken
    exact ⟨List.isPrefixOf_iff_prefix.1 isPrefix, .inr ⟨token, member, eq_of_beq stops⟩⟩
  have quoted : IsCut standard.catalog text inQuotes :=
    isCut inQuotes (by decide +kernel) (by decide +kernel)
  have called : IsCut standard.catalog text inCall :=
    isCut inCall (by decide +kernel) (by decide +kernel)
  have breaks : BreaksInQuotes standard.catalog text inQuotes 5 :=
    (Expression.breaksInQuotes_iff spares parsed quoted).2 (by decide +kernel)
  have unbroken (quote : Nat) : ¬ BreaksInQuotes standard.catalog text inCall quote := by
    have closed : Token.openQuote? (Token.scan standard.catalog inCall) = none := by
      decide +kernel
    intro breaks
    rw [breaks.openQuote?_eq] at closed
    cases closed
  have unfinished : (standard.read inCall .root).isOk = false := by decide +kernel
  refine ⟨text, inQuotes, inCall, formula, rfl, rfl, rfl, spares, read, quoted, breaks,
    (read_of_isCut spares read quoted).1 5 breaks, called, ?_⟩
  rcases (read_of_isCut spares read called).2 unbroken with ⟨other, complete⟩ | missing
  · rw [complete] at unfinished
    cases unfinished
  · have length : Text.byteLength inCall.toList = 17 := by decide +kernel
    rwa [length] at missing

end Dialect

end InspectionFormula
