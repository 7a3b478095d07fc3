import InspectionFormula.Proofs.Parsing.Completeness

/-!
# Where a formula may break off

While a formula is read, an operator may wait that the catalog has no operation
for, and a quote may be open.  Each token changes both in one way only.  If the
rest of the formula can be read, its end here lacks nothing but what comes next.
-/

namespace InspectionFormula

namespace Token

/-- Where the quote is that is open after a token.  Quotes open and close in turns. -/
def quoteAfter (quote? : Option Nat) (token : Token) : Option Nat :=
  if token.isSymbol '"' then if quote?.isSome then none else some token.start else quote?

/-- Where the quote is that some tokens open and do not close. -/
def openQuote? (tokens : List Token) : Option Nat := tokens.foldl quoteAfter none

theorem quoteAfter_of_not_quote {token : Token} (plain : token.isSymbol '"' = false)
    (quote? : Option Nat) : token.quoteAfter quote? = quote? := by
  simp [quoteAfter, plain]

theorem isQuote_eq_false_of_either {token : Token} {first second : Char}
    (either : (token.isSymbol first || token.isSymbol second) = true)
    (firstOther : (first == '"') = false) (secondOther : (second == '"') = false) :
    token.isSymbol '"' = false := by
  rcases Bool.or_eq_true_iff.1 either with isSymbol | isSymbol
  · rw [isSymbol_eq_beq isSymbol, firstOther]
  · rw [isSymbol_eq_beq isSymbol, secondOther]

end Token

namespace PendingOperator

/-- The catalog has an operation for the operator. -/
def IsKnown (pending : PendingOperator) : Prop :=
  ∃ operation, pending.operator.kind = .operation operation

end PendingOperator

/-- The quote inside which a phase is. -/
def Phase.quote? : Phase → Option Nat
  | insideQuotes _ quote => some quote
  | _ => none

/-- Where the path of a reference ends, if it may. -/
def Phase.pathStop? : Phase → Option Nat
  | afterRoot _ pathStop | afterStep _ pathStop | keyStart _ pathStop | afterKey _ pathStop _
  | keyClosed _ pathStop _ => some pathStop
  | _ => none

namespace ParseState

variable {rules : ReferenceRules} {state after last : ParseState} {token : Token}
  {tokens : List Token} {outer : List Context} {level : Level} {phase : Phase}
  {value : Expression}

/-- The sums that wait for their right operands around some brackets. -/
def waitingOutside (outer : List Context) : List PendingOperator :=
  outer.filterMap fun context => context.level.sum

theorem waitingOutside_cons (level : Level) (opener : Opener) (outer : List Context) :
    waitingOutside (⟨level, opener⟩ :: outer) = level.sum.toList ++ waitingOutside outer := by
  cases sum : level.sum <;> simp [waitingOutside, sum]

/-- A sum that is joined has an operation. -/
theorem isKnown_of_joinSum {total : Expression} (joined : level.joinSum value = .ok total) :
    ∀ pending ∈ level.sum.toList, pending.IsKnown := by
  intro pending member
  rw [Level.joinSum, Option.mem_toList.1 member] at joined
  obtain ⟨operation, known, -⟩ := joinTo_eq_ok joined
  exact ⟨operation, known⟩

/-- The sums that wait for their right operands. -/
def waiting (state : ParseState) : List PendingOperator :=
  state.level.sum.toList ++ waitingOutside state.outer

/-- What a token that is no quote leaves outside of quotes. -/
structure LeavesPlain (token : Token) (waits : List PendingOperator) (after : ParseState) :
    Prop where
  plain : token.isSymbol '"' = false
  waiting : after.waiting = waits
  outside : after.phase.quote? = none

theorem leavesPlain_of_supply (plain : token.isSymbol '"' = false)
    (supplied : supply outer level value = .ok after) :
    LeavesPlain token (level.sum.toList ++ waitingOutside outer) after := by
  obtain ⟨term, -, supplied⟩ := exists_eq_ok_of_bind supplied
  cases supplied
  exact ⟨plain, rfl, rfl⟩

theorem leavesPlain_of_supplyCall {operation : Operation} {name : Token}
    {arguments : List Expression} (closes : token.isSymbol ')' = true)
    (supplied : supplyCall outer level operation name arguments token = .ok after) :
    LeavesPlain token (level.sum.toList ++ waitingOutside outer) after := by
  unfold supplyCall at supplied
  split at supplied
  · exact leavesPlain_of_supply (Token.isSymbol_eq_beq closes _) supplied
  · cases supplied

theorem leavesPlain_of_readOperand (regular : token.IsRegular)
    (next : readOperand ⟨outer, level, phase⟩ token = .ok after) :
    LeavesPlain token (level.sum.toList ++ waitingOutside outer) after := by
  have notQuote (unreserved : token.isReserved = false) : token.isSymbol '"' = false :=
    Token.isSymbol_eq_false unreserved rfl
  unfold readOperand at next
  unfold Token.IsRegular at regular
  split at next
  · next opens =>
      cases next
      exact ⟨Token.isSymbol_eq_beq opens _, waitingOutside_cons level _ outer, rfl⟩
  · split at next
    · next opens =>
        cases next
        exact ⟨Token.isSymbol_eq_beq opens _, rfl, rfl⟩
    · split at next
      · next isNumber =>
          rw [isNumber] at regular
          exact leavesPlain_of_supply (notQuote regular) next
      · next isConstant =>
          rw [isConstant] at regular
          exact leavesPlain_of_supply (notQuote regular) next
      · split at next
        · cases next
        · next unreserved =>
            cases next
            exact ⟨notQuote (by simpa using unreserved), rfl, rfl⟩
      · next isIdentifier =>
          cases next
          rw [isIdentifier] at regular
          exact ⟨notQuote regular, rfl, rfl⟩
      all_goals cases next

theorem leavesPlain_of_readFactor (regular : token.IsRegular)
    (next : readFactor ⟨outer, level, phase⟩ token = .ok after) :
    LeavesPlain token (level.sum.toList ++ waitingOutside outer) after := by
  unfold readFactor at next
  split at next
  · next isSign =>
      cases next
      exact ⟨Token.isSymbol_eq_beq isSign _, rfl, rfl⟩
  · split at next
    · next isSign =>
        cases next
        exact ⟨Token.isSymbol_eq_beq isSign _, rfl, rfl⟩
    · exact leavesPlain_of_readOperand regular next

theorem leavesPlain_of_closeExpression (next : closeExpression outer value token = .ok after) :
    LeavesPlain token (waitingOutside outer) after := by
  unfold closeExpression at next
  split at next
  · cases next
  · split at next
    · next closes =>
        rw [waitingOutside_cons]
        exact leavesPlain_of_supply (Token.isSymbol_eq_beq closes _) next
    · cases next
  · split at next
    · next separates =>
        cases next
        refine ⟨Token.isQuote_eq_false_of_either separates rfl rfl, ?_, rfl⟩
        rw [waitingOutside_cons]
        exact waitingOutside_cons _ _ _
    · split at next
      · next closes =>
          rw [waitingOutside_cons]
          exact leavesPlain_of_supplyCall closes next
      · cases next

theorem leavesPlain_of_closeReference {start : ReferenceStart} {pathStop : Nat}
    {key : Option UInt16}
    (next : closeReference rules ⟨outer, level, phase⟩ start pathStop key token = .ok after) :
    LeavesPlain token (level.sum.toList ++ waitingOutside outer) after := by
  unfold closeReference at next
  split at next
  · next closes =>
      obtain ⟨value, -, next⟩ := exists_eq_ok_of_bind next
      exact leavesPlain_of_supply (Token.isSymbol_eq_beq closes _) next
  · cases next

theorem leavesPlain_of_readAfterPath {start : ReferenceStart} {pathStop : Nat}
    (next : readAfterPath rules ⟨outer, level, phase⟩ start pathStop token = .ok after) :
    LeavesPlain token (level.sum.toList ++ waitingOutside outer) after := by
  unfold readAfterPath at next
  split at next
  · next opens =>
      cases next
      exact ⟨Token.isSymbol_eq_beq opens _, rfl, rfl⟩
  · exact leavesPlain_of_closeReference next

/-- What a token changes: a sum stops to wait only for an operator that has an operation, and quotes
open and close in turns. -/
structure Follows (token : Token) (before after : ParseState) : Prop where
  waiting : ∀ pending ∈ before.waiting, pending ∈ after.waiting ∨ pending.IsKnown
  quote? : after.phase.quote? = token.quoteAfter before.phase.quote?

theorem LeavesPlain.follows
    (leaves : LeavesPlain token (level.sum.toList ++ waitingOutside outer) after)
    (outside : phase.quote? = none) : Follows token ⟨outer, level, phase⟩ after where
  waiting pending member := .inl (by rw [leaves.waiting]; exact member)
  quote? := by rw [leaves.outside, Token.quoteAfter_of_not_quote leaves.plain, outside]

theorem follows_of_readAfterFactor
    (next : readAfterFactor ⟨outer, level, .term value⟩ value token = .ok after) :
    Follows token ⟨outer, level, .term value⟩ after := by
  unfold readAfterFactor at next
  split at next
  · next isOperator =>
      cases next
      exact LeavesPlain.follows
        ⟨Token.isQuote_eq_false_of_either isOperator rfl rfl, rfl, rfl⟩ rfl
  · obtain ⟨total, joined, next⟩ := exists_eq_ok_of_bind next
    have known := isKnown_of_joinSum joined
    have leaves : token.isSymbol '"' = false ∧ after.phase.quote? = none ∧
        ∀ pending ∈ waitingOutside outer, pending ∈ after.waiting := by
      split at next
      · next isOperator =>
          cases next
          exact ⟨Token.isQuote_eq_false_of_either isOperator rfl rfl, rfl,
            fun pending => List.mem_cons_of_mem _⟩
      · obtain ⟨plain, waits, outside⟩ := leavesPlain_of_closeExpression next
        exact ⟨plain, outside, fun pending member => waits ▸ member⟩
    obtain ⟨plain, outside, waits⟩ := leaves
    refine ⟨?_, ?_⟩
    · intro pending member
      rcases List.mem_append.1 member with here | around
      · exact .inr (known pending here)
      · exact .inl (waits pending around)
    · rw [outside, Token.quoteAfter_of_not_quote plain]
      rfl

theorem follows_of_readStep {start : ReferenceStart} (outside : phase.quote? = none)
    (next : readStep ⟨outer, level, phase⟩ start token = .ok after) :
    Follows token ⟨outer, level, phase⟩ after := by
  unfold readStep at next
  split at next
  · next opens =>
      cases next
      refine ⟨fun pending => .inl, ?_⟩
      show some token.start = token.quoteAfter phase.quote?
      simp [Token.quoteAfter, opens, outside]
  · next notQuote =>
      split at next
      · cases next
        refine ⟨fun pending => .inl, ?_⟩
        rw [Token.quoteAfter_of_not_quote (by simpa using notQuote), outside]
        rfl
      · cases next

theorem follows_of_read (regular : token.IsRegular) (next : read rules state token = .ok after) :
    Follows token state after := by
  obtain ⟨outer, level, phase⟩ := state
  cases phase with
  | factor => exact (leavesPlain_of_readFactor regular next).follows rfl
  | signed => exact (leavesPlain_of_readOperand regular next).follows rfl
  | term value => exact follows_of_readAfterFactor next
  | callName operation name =>
      simp only [read] at next
      split at next
      · next opens =>
          cases next
          exact LeavesPlain.follows ⟨Token.isSymbol_eq_beq opens _, rfl, rfl⟩ rfl
      · cases next
  | callStart operation name =>
      simp only [read] at next
      split at next
      · next closes => exact (leavesPlain_of_supplyCall closes next).follows rfl
      · obtain ⟨plain, waits, outside⟩ := leavesPlain_of_readFactor regular next
        refine LeavesPlain.follows ⟨plain, ?_, outside⟩ rfl
        rw [waits, waitingOutside_cons]
        rfl
  | unknownName name =>
      simp only [read] at next
      split at next <;> cases next
  | referenceStart opening =>
      simp only [read] at next
      split at next
      · next isSlash =>
          cases next
          exact LeavesPlain.follows ⟨Token.isSymbol_eq_beq isSlash _, rfl, rfl⟩ rfl
      · exact follows_of_readStep rfl next
  | afterRoot start pathStop =>
      simp only [read] at next
      split at next
      · exact (leavesPlain_of_readAfterPath next).follows rfl
      · exact follows_of_readStep rfl next
  | afterSlash start => exact follows_of_readStep rfl next
  | insideQuotes start quote =>
      simp only [read] at next
      split at next
      · next closes =>
          cases next
          refine ⟨fun pending => .inl, ?_⟩
          simp [Token.quoteAfter, closes, Phase.quote?]
      · next notQuote =>
          cases next
          refine ⟨fun pending => .inl, ?_⟩
          rw [Token.quoteAfter_of_not_quote (by simpa using notQuote)]
  | afterStep start pathStop =>
      simp only [read] at next
      split at next
      · next isSlash =>
          cases next
          exact LeavesPlain.follows ⟨Token.isSymbol_eq_beq isSlash _, rfl, rfl⟩ rfl
      · exact (leavesPlain_of_readAfterPath next).follows rfl
  | keyStart start pathStop =>
      simp only [read] at next
      split at next
      · next value isNumber =>
          split at next
          · cases next
            rw [Token.IsRegular, isNumber] at regular
            exact LeavesPlain.follows ⟨Token.isSymbol_eq_false regular rfl, rfl, rfl⟩ rfl
          · cases next
      · cases next
  | afterKey start pathStop key =>
      simp only [read] at next
      split at next
      · next closes =>
          cases next
          exact LeavesPlain.follows ⟨Token.isSymbol_eq_beq closes _, rfl, rfl⟩ rfl
      · cases next
  | keyClosed start pathStop key => exact (leavesPlain_of_closeReference next).follows rfl

theorem readEach_cons_eq_ok {more : List Token}
    (read : readEach rules state (token :: more) = .ok last) :
    ∃ middle, ParseState.read rules state token = .ok middle ∧
      readEach rules middle more = .ok last :=
  exists_eq_ok_of_bind read

theorem quote?_of_readEach (regular : ∀ token ∈ tokens, token.IsRegular)
    (read : readEach rules state tokens = .ok last) :
    last.phase.quote? = tokens.foldl Token.quoteAfter state.phase.quote? := by
  induction tokens generalizing state with
  | nil =>
      cases read
      rfl
  | cons token tokens ih =>
      obtain ⟨first, others⟩ := List.forall_mem_cons.1 regular
      obtain ⟨middle, step, rest⟩ := readEach_cons_eq_ok read
      rw [ih others rest, (follows_of_read first step).quote?]
      rfl

/-- Nothing waits at the end of a formula for an operator without an operation. -/
theorem isKnown_of_finish {stop : Nat} (finished : state.finish stop = .ok value) :
    ∀ pending ∈ state.waiting, pending.IsKnown := by
  obtain ⟨outer, level, phase⟩ := state
  cases phase with
  | term term =>
      obtain ⟨total, joined, finished⟩ := exists_eq_ok_of_bind finished
      cases outer with
      | nil =>
          intro pending member
          apply isKnown_of_joinSum joined
          simpa [waiting, waitingOutside] using member
      | cons => cases finished
  | _ => cases finished

/-- The tokens are read to the end of a formula. -/
def Completes (rules : ReferenceRules) (state : ParseState) (tokens : List Token) : Prop :=
  ∃ last stop value, readEach rules state tokens = .ok last ∧ last.finish stop = .ok value

theorem Completes.isKnown (completes : Completes rules state tokens)
    (regular : ∀ token ∈ tokens, token.IsRegular) :
    ∀ pending ∈ state.waiting, pending.IsKnown := by
  obtain ⟨last, stop, value, read, finished⟩ := completes
  induction tokens generalizing state with
  | nil =>
      cases read
      exact isKnown_of_finish finished
  | cons token tokens ih =>
      obtain ⟨first, others⟩ := List.forall_mem_cons.1 regular
      obtain ⟨middle, step, rest⟩ := readEach_cons_eq_ok read
      intro pending member
      rcases (follows_of_read first step).waiting pending member with waits | known
      · exact ih others rest pending waits
      · exact known

theorem Completes.ne_unknownName (completes : Completes rules state tokens) (name : Token) :
    state.phase ≠ .unknownName name := by
  obtain ⟨last, stop, value, reads, finished⟩ := completes
  obtain ⟨outer, level, phase⟩ := state
  rintro rfl
  cases tokens with
  | nil =>
      cases reads
      cases finished
  | cons token tokens =>
      obtain ⟨middle, step, -⟩ := readEach_cons_eq_ok reads
      simp only [read] at step
      split at step <;> cases step

/-- A formula ends early for what is missing at its end, or for the quote that it leaves open. -/
theorem Completes.finish_cases (completes : Completes rules state tokens)
    (regular : ∀ token ∈ tokens, token.IsRegular) (stop : Nat) :
    match state.phase.quote? with
    | some quote => state.finish stop = .error ⟨.unterminatedQuote, quote⟩
    | none => (∃ value, state.finish stop = .ok value) ∨
        ∃ expected, state.finish stop = .error (endedBefore expected stop) := by
  have known := completes.isKnown regular
  have named := completes.ne_unknownName
  obtain ⟨outer, level, phase⟩ := state
  cases phase with
  | term term =>
      have joins : ∃ total, level.joinSum term = .ok total := by
        cases sum : level.sum with
        | none => exact ⟨term, by rw [Level.joinSum, sum]; rfl⟩
        | some pending =>
            obtain ⟨operation, isOperation⟩ := known pending (by simp [waiting, sum])
            refine ⟨.call operation [pending.left, term] (pending.left.span.through term.span), ?_⟩
            rw [Level.joinSum, sum]
            exact joinTo_of_known isOperation term
      obtain ⟨total, joined⟩ := joins
      cases outer with
      | nil => exact .inl ⟨total, by simp [finish, joined, bind, Except.bind]⟩
      | cons context outer =>
          exact .inr ⟨.symbol ')', by simp [finish, joined, bind, Except.bind, missingAtEnd]⟩
  | unknownName name => exact absurd rfl (named name)
  | insideQuotes start quote => rfl
  | factor | signed | callStart => exact .inr ⟨.value, rfl⟩
  | callName => exact .inr ⟨.symbol '(', rfl⟩
  | referenceStart | afterRoot | afterSlash => exact .inr ⟨.pathSegment, rfl⟩
  | afterStep | keyClosed => exact .inr ⟨.symbol '\x7d', rfl⟩
  | keyStart => exact .inr ⟨.attributeKey, rfl⟩
  | afterKey => exact .inr ⟨.symbol ')', rfl⟩

end ParseState

end InspectionFormula
