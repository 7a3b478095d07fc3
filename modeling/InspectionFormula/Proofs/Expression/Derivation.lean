import Mathlib.Data.List.Induction
import InspectionFormula.Proofs.Catalog.Standard
import InspectionFormula.Proofs.Decimal.Numeral
import InspectionFormula.Proofs.Expression.Nodes

/-!
# Derivations of spelled expressions

The text of an expression derives it wherever it stands, up to spans and with
negations for negative numbers.
-/

namespace InspectionFormula

open Grammar Text

variable {resolve : String → Option Path}

/-- Wherever a text stands, its tokens derive a tree up to spans. -/
def Spells (Derives : ReferenceRules → List Token → Expression → Prop)
    (resolve : String → Option Path) (text : List Char) (tree : Expression) : Prop :=
  ∀ before after, ∃ value,
    Derives ⟨before ++ (text ++ after), resolve⟩
        (Token.scanFrom .standard (byteLength before) text) value ∧
      value.eraseSpans = tree.eraseSpans

namespace Spells

variable {text : List Char} {tree : Expression}

theorem factor (spells : Spells IsOperand resolve text tree) :
    Spells IsFactor resolve text tree := by
  intro before after
  obtain ⟨value, derived, same⟩ := spells before after
  exact ⟨value, .operand derived, same⟩

theorem term (spells : Spells IsFactor resolve text tree) : Spells IsTerm resolve text tree := by
  intro before after
  obtain ⟨value, derived, same⟩ := spells before after
  exact ⟨value, .factor derived, same⟩

theorem expression (spells : Spells IsTerm resolve text tree) :
    Spells IsExpression resolve text tree := by
  intro before after
  obtain ⟨value, derived, same⟩ := spells before after
  exact ⟨value, .term derived, same⟩

theorem word (isWord : IsWord text)
    (derives : ∀ rules offset, IsOperand rules [Token.ofText .standard offset text]
      (tree.withSpan (Token.ofText .standard offset text).span)) :
    Spells IsOperand resolve text tree := by
  intro before after
  rw [Token.scanFrom_word _ isWord]
  exact ⟨_, derives _ _, Expression.eraseSpans_withSpan tree _⟩

theorem number {value : Binary64} {span : Span} (isWord : IsWord text)
    (read : Binary64.readLiteral? text = some value) :
    Spells IsOperand resolve text (.number value span) := by
  apply word isWord
  intro rules offset
  have kind : TokenKind.classify .standard text = .number value := by
    unfold TokenKind.classify
    rw [read]
  exact .number kind

theorem constant {constant : Constant} {span : Span}
    (known : constant ∈ Catalog.standard.constants.values) :
    Spells IsOperand resolve constant.name.toList (.constant constant span) := by
  apply word (Catalog.isWord_of_constant known)
  intro rules offset
  have kind := (Token.kind_ofText offset _).trans (Catalog.classify_constant known)
  exact .constant kind

/-- Parentheses leave the tree as it is. -/
theorem group (spells : Spells IsExpression resolve text tree) :
    Spells IsOperand resolve ('(' :: text ++ [')']) tree := by
  intro before after
  obtain ⟨value, derived, same⟩ := spells (before ++ ['(']) (')' :: after)
  have source : before ++ ['('] ++ (text ++ ')' :: after) =
      before ++ ('(' :: text ++ [')'] ++ after) := by
    simp
  rw [source, byteLength_append] at derived
  rw [Token.scanFrom_append_reserved _ _ rfl, Token.scanFrom_cons_reserved _ rfl]
  exact ⟨_, .group (Token.isSymbol_ofText _ _) derived (Token.isSymbol_ofText _ _),
    (Expression.eraseSpans_withSpan _ _).trans same⟩

theorem minus {span : Span} (spells : Spells IsOperand resolve text tree) :
    Spells IsFactor resolve ('-' :: text) (.negate tree span) := by
  intro before after
  obtain ⟨value, derived, same⟩ := spells (before ++ ['-']) after
  have source : before ++ ['-'] ++ (text ++ after) = before ++ ('-' :: text ++ after) := by
    simp
  rw [source, byteLength_append] at derived
  rw [Token.scanFrom_cons_reserved _ rfl]
  refine ⟨_, .minus (Token.isSymbol_ofText _ _) derived, ?_⟩
  rw [Expression.eraseSpans, Expression.eraseSpans, same]

theorem operator_kind {operation : Operation} {character : Char}
    (known : operation ∈ Catalog.standard.operations.values)
    (named : operation.name.toList = [character]) (offset : Nat) :
    (Token.ofText .standard offset [character]).kind = .operation operation := by
  rw [← named, Token.kind_ofText]
  exact Catalog.classify_operation known

theorem pair {Left Right : ReferenceRules → List Token → Expression → Prop}
    {leftText rightText : List Char} {left right : Expression}
    (leftSpells : Spells Left resolve leftText left)
    (rightSpells : Spells Right resolve rightText right) (middle before after : List Char) :
    ∃ leftValue rightValue,
      Left ⟨before ++ (leftText ++ (middle ++ rightText) ++ after), resolve⟩
          (Token.scanFrom .standard (byteLength before) leftText) leftValue ∧
        Right ⟨before ++ (leftText ++ (middle ++ rightText) ++ after), resolve⟩
            (Token.scanFrom .standard (byteLength before + byteLength (leftText ++ middle))
              rightText) rightValue ∧
          leftValue.eraseSpans = left.eraseSpans ∧ rightValue.eraseSpans = right.eraseSpans := by
  obtain ⟨leftValue, leftDerived, leftSame⟩ :=
    leftSpells before (middle ++ (rightText ++ after))
  obtain ⟨rightValue, rightDerived, rightSame⟩ :=
    rightSpells (before ++ (leftText ++ middle)) after
  have leftSource : before ++ (leftText ++ (middle ++ (rightText ++ after))) =
      before ++ (leftText ++ (middle ++ rightText) ++ after) := by
    simp
  have rightSource : before ++ (leftText ++ middle) ++ (rightText ++ after) =
      before ++ (leftText ++ (middle ++ rightText) ++ after) := by
    simp
  rw [leftSource] at leftDerived
  rw [rightSource, byteLength_append before] at rightDerived
  exact ⟨leftValue, rightValue, leftDerived, rightDerived, leftSame, rightSame⟩

/-- An operator with blanks around it joins what stands before and after it. -/
theorem scanFrom_between (offset : Nat) (left right : List Char) {character : Char}
    (reserved : Text.isReserved character = true) :
    Token.scanFrom .standard offset (left ++ ([' ', character, ' '] ++ right)) =
      Token.scanFrom .standard offset left ++
        Token.ofText .standard (offset + byteLength (left ++ [' '])) [character] ::
          Token.scanFrom .standard (offset + byteLength (left ++ [' ', character, ' '])) right := by
  have split : left ++ ([' ', character, ' '] ++ right) =
      (left ++ [' ']) ++ character :: ' ' :: right := by
    simp
  have total : offset + byteLength (left ++ [' ', character, ' ']) =
      offset + byteLength (left ++ [' ']) + character.utf8Size + ' '.utf8Size := by
    simp only [byteLength_append, byteLength_cons, byteLength_nil]
    omega
  rw [split, Token.scanFrom_append_reserved _ _ reserved,
    Token.scanFrom_append_blank _ (by decide), Token.scanFrom_cons_blank _ (by decide), total]

section Operators

variable {operation : Operation} {character : Char} {leftText rightText : List Char}
  {left right : Expression} {span : Span}

theorem eraseSpans_operator {leftValue rightValue : Expression} {valueSpan : Span}
    (leftSame : leftValue.eraseSpans = left.eraseSpans)
    (rightSame : rightValue.eraseSpans = right.eraseSpans) :
    (Expression.call operation [leftValue, rightValue] valueSpan).eraseSpans =
      (Expression.call operation [left, right] span).eraseSpans := by
  rw [Expression.eraseSpans_call, Expression.eraseSpans_call]
  simp [leftSame, rightSame]

theorem sum (known : operation ∈ Catalog.standard.operations.values)
    (named : operation.name.toList = [character]) (isSum : character = '+' ∨ character = '-')
    (leftSpells : Spells IsExpression resolve leftText left)
    (rightSpells : Spells IsTerm resolve rightText right) :
    Spells IsExpression resolve (leftText ++ ([' ', character, ' '] ++ rightText))
      (.call operation [left, right] span) := by
  intro before after
  obtain ⟨leftValue, rightValue, leftDerived, rightDerived, leftSame, rightSame⟩ :=
    pair leftSpells rightSpells [' ', character, ' '] before after
  have reserved : Text.isReserved character = true := by
    rcases isSum with rfl | rfl <;> rfl
  rw [scanFrom_between _ _ _ reserved]
  refine ⟨_, .sum leftDerived rightDerived ?_ (operator_kind known named _),
    eraseSpans_operator leftSame rightSame⟩
  rcases isSum with rfl | rfl
  · exact .inl (Token.isSymbol_ofText _ _)
  · exact .inr (Token.isSymbol_ofText _ _)

theorem product (known : operation ∈ Catalog.standard.operations.values)
    (named : operation.name.toList = [character]) (isProduct : character = '*' ∨ character = '/')
    (leftSpells : Spells IsTerm resolve leftText left)
    (rightSpells : Spells IsFactor resolve rightText right) :
    Spells IsTerm resolve (leftText ++ ([' ', character, ' '] ++ rightText))
      (.call operation [left, right] span) := by
  intro before after
  obtain ⟨leftValue, rightValue, leftDerived, rightDerived, leftSame, rightSame⟩ :=
    pair leftSpells rightSpells [' ', character, ' '] before after
  have reserved : Text.isReserved character = true := by
    rcases isProduct with rfl | rfl <;> rfl
  rw [scanFrom_between _ _ _ reserved]
  refine ⟨_, .product leftDerived rightDerived ?_ (operator_kind known named _),
    eraseSpans_operator leftSame rightSame⟩
  rcases isProduct with rfl | rfl
  · exact .inl (Token.isSymbol_ofText _ _)
  · exact .inr (Token.isSymbol_ofText _ _)

/-- An operator in parentheses, whichever it is, joins factors. -/
theorem operator (known : operation ∈ Catalog.standard.operations.values)
    (between : Expression.isInfix operation.name = true)
    (leftSpells : Spells IsFactor resolve leftText left)
    (rightSpells : Spells IsFactor resolve rightText right) :
    Spells IsOperand resolve
      ('(' :: leftText ++ ' ' :: operation.name.toList ++ ' ' :: rightText ++ [')'])
      (.call operation [left, right] span) := by
  have text (character : Char) (named : operation.name.toList = [character]) :
      '(' :: leftText ++ ' ' :: operation.name.toList ++ ' ' :: rightText ++ [')'] =
        '(' :: (leftText ++ ([' ', character, ' '] ++ rightText)) ++ [')'] := by
    simp [named]
  simp only [Expression.isInfix, Bool.or_eq_true, beq_iff_eq] at between
  rcases between with ((plus | minus) | times) | divided
  · have named : operation.name.toList = ['+'] := by rw [plus]; rfl
    rw [text _ named]
    exact group (sum known named (.inl rfl) leftSpells.term.expression rightSpells.term)
  · have named : operation.name.toList = ['-'] := by rw [minus]; rfl
    rw [text _ named]
    exact group (sum known named (.inr rfl) leftSpells.term.expression rightSpells.term)
  · have named : operation.name.toList = ['*'] := by rw [times]; rfl
    rw [text _ named]
    exact group (product known named (.inl rfl) leftSpells.term rightSpells).expression
  · have named : operation.name.toList = ['/'] := by rw [divided]; rfl
    rw [text _ named]
    exact group (product known named (.inr rfl) leftSpells.term rightSpells).expression

end Operators

section References

variable {path : Path} {key : Option UInt16}

theorem textThrough_spell (catalog : Catalog) (renderable : path.isRenderable = true)
    (before after : List Char) :
    textThrough (before ++ (path.spell ++ after))
      (Token.scanFrom catalog (byteLength before) path.spell) = path.text := by
  obtain ⟨-, starts, stops⟩ := Path.scanFrom_spell catalog renderable
    (byteLength before)
  rw [textThrough, starts, stops, slice?_append]
  rfl

/-- The text of a key, which stands after a path. -/
def keyText (key : Option UInt16) : List Char :=
  match key with
  | some key => '(' :: Nat.toDigits 10 key.toNat ++ [')']
  | none => []

theorem scanFrom_keyText (catalog : Catalog) (offset : Nat) (text : List Char)
    (key : Option UInt16) :
    ∃ tokens, Token.scanFrom catalog offset (text ++ keyText key) =
      Token.scanFrom catalog offset text ++ tokens ∧ IsKey tokens key := by
  cases key with
  | none => exact ⟨[], by simp [keyText], .none⟩
  | some key =>
      obtain ⟨number, read⟩ := Binary64.readLiteral?_toDigits key
      have kind (offset : Nat) :
          (Token.ofText catalog offset (Nat.toDigits 10 key.toNat)).kind = .number number := by
        unfold Token.ofText TokenKind.classify
        rw [read]
      have split : text ++ keyText (some key) =
          (text ++ '(' :: Nat.toDigits 10 key.toNat) ++ [')'] := by
        simp [keyText]
      rw [split, Token.scanFrom_append_reserved _ _ rfl, Token.scanFrom_append_reserved _ _ rfl,
        Token.scanFrom_word _ (Binary64.isWord_toDigits key.toNat), List.append_assoc]
      exact ⟨_, rfl, .some (Token.isSymbol_ofText _ _) (kind _) (isDecimalKey_toDigits key)
        (Token.isSymbol_ofText _ _)⟩

/-- A path in braces, with or without a key, is scanned as one in every catalog. -/
theorem scanFrom_reference (catalog : Catalog) (renderable : path.isRenderable = true)
    (key : Option UInt16) (before after : List Char) :
    ∃ opening pathTokens keyTokens closing,
      Token.scanFrom catalog (byteLength before) (Reference.spell ⟨path, key⟩) =
        opening :: pathTokens ++ keyTokens ++ [closing] ∧
      opening.isSymbol '{' = true ∧ IsPath pathTokens ∧ IsKey keyTokens key ∧
      closing.isSymbol '}' = true ∧
      textThrough (before ++ (Reference.spell ⟨path, key⟩ ++ after)) pathTokens = path.text ∧
      opening.span.through closing.span =
        ⟨byteLength before, byteLength (Reference.spell ⟨path, key⟩)⟩ := by
  have spelled : Reference.spell ⟨path, key⟩ = '{' :: (path.spell ++ keyText key) ++ ['}'] := by
    cases key <;> simp [Reference.spell, keyText]
  have source : before ++ ('{' :: (path.spell ++ keyText key) ++ ['}'] ++ after) =
      (before ++ ['{']) ++ (path.spell ++ (keyText key ++ '}' :: after)) := by
    simp
  have inside : byteLength before + '{'.utf8Size = byteLength (before ++ ['{']) :=
    (byteLength_append before ['{']).symm
  obtain ⟨keyTokens, scanned, isKey⟩ :=
    scanFrom_keyText catalog (byteLength (before ++ ['{'])) path.spell key
  obtain ⟨isPath, -, -⟩ := Path.scanFrom_spell catalog renderable (byteLength (before ++ ['{']))
  rw [spelled, source, Token.scanFrom_append_reserved _ _ rfl, Token.scanFrom_cons_reserved _ rfl,
    inside, scanned]
  refine ⟨_, _, keyTokens, _, rfl, Token.isSymbol_ofText _ _, isPath, isKey,
    Token.isSymbol_ofText _ _, textThrough_spell catalog renderable _ _, ?_⟩
  simp only [Span.through, Token.start_span, Token.stop_span, Token.start_ofText, Token.stop_ofText,
    byteLength_cons, byteLength_append, byteLength_nil, Span.mk.injEq, true_and]
  omega

/-- A path in braces, with or without a key. -/
theorem reference {span : Span} (renderable : path.isRenderable = true)
    (resolves : resolve path.text = some path) :
    Spells IsOperand resolve (Reference.spell ⟨path, key⟩) (.reference ⟨path, key⟩ span) := by
  intro before after
  obtain ⟨opening, pathTokens, keyTokens, closing, scanned, opens, isPath, isKey, closes, found,
    -⟩ := scanFrom_reference .standard renderable key before after
  rw [scanned]
  exact ⟨_, .reference opens isPath isKey closes ((congrArg resolve found).trans resolves), rfl⟩

end References

section Calls

/-- Texts with semicolons between them. -/
def listText (texts : List (List Char)) : List Char := (List.intersperse [';', ' '] texts).flatten

theorem listText_append_singleton {texts : List (List Char)} (nonempty : texts ≠ [])
    (last : List Char) : listText (texts ++ [last]) = listText texts ++ ([';', ' '] ++ last) := by
  induction texts with
  | nil => exact absurd rfl nonempty
  | cons first texts ih =>
      cases texts with
      | nil => simp [listText]
      | cons second texts =>
          have later := ih (by simp)
          simp only [listText, List.cons_append, List.intersperse_cons_cons, List.flatten_cons,
            List.append_assoc] at later ⊢
          rw [later]

theorem scanFrom_listText (offset : Nat) (earlier last : List Char) :
    Token.scanFrom .standard offset (earlier ++ ([';', ' '] ++ last)) =
      Token.scanFrom .standard offset earlier ++
        Token.ofText .standard (offset + byteLength earlier) [';'] ::
          Token.scanFrom .standard (offset + byteLength (earlier ++ [';', ' '])) last := by
  have total : offset + byteLength (earlier ++ [';', ' ']) =
      offset + byteLength earlier + ';'.utf8Size + ' '.utf8Size := by
    simp only [byteLength_append, byteLength_cons, byteLength_nil]
    omega
  rw [List.cons_append, Token.scanFrom_append_reserved _ _ rfl, List.cons_append, List.nil_append,
    Token.scanFrom_cons_blank _ (by decide), total]

theorem listed {arguments : List Expression} (nonempty : arguments ≠ [])
    (spellEach : ∀ argument ∈ arguments,
      Spells IsExpression resolve argument.spell argument.withNegations)
    (before after : List Char) :
    ∃ values, AreListed ⟨before ++ (listText (arguments.map Expression.spell) ++ after), resolve⟩
        (Token.scanFrom .standard (byteLength before)
          (listText (arguments.map Expression.spell))) values ∧
      values.map Expression.eraseSpans =
        (arguments.map Expression.withNegations).map Expression.eraseSpans := by
  induction arguments using List.reverseRecOn generalizing after with
  | nil => exact absurd rfl nonempty
  | append_singleton front last ih =>
      have lastSpells := spellEach last (by simp)
      by_cases alone : front = []
      · subst alone
        obtain ⟨value, derived, same⟩ := lastSpells before after
        have single : listText [last.spell] = last.spell := by simp [listText]
        refine ⟨[value], ?_, by simp [same]⟩
        rw [List.nil_append, List.map_singleton, single]
        exact .one derived
      · have text : listText ((front ++ [last]).map Expression.spell) =
            listText (front.map Expression.spell) ++ ([';', ' '] ++ last.spell) := by
          rw [List.map_append, List.map_singleton,
            listText_append_singleton (by simpa using alone)]
        obtain ⟨values, derived, same⟩ := ih alone
          (fun argument member => spellEach argument (List.mem_append_left _ member))
          ([';', ' '] ++ (last.spell ++ after))
        obtain ⟨value, lastDerived, lastSame⟩ := lastSpells
          (before ++ (listText (front.map Expression.spell) ++ [';', ' '])) after
        have source : before ++ (listText (front.map Expression.spell) ++
            ([';', ' '] ++ (last.spell ++ after))) =
          before ++ (listText ((front ++ [last]).map Expression.spell) ++ after) := by
          rw [text]
          simp
        have lastSource : before ++ (listText (front.map Expression.spell) ++ [';', ' ']) ++
            (last.spell ++ after) =
          before ++ (listText ((front ++ [last]).map Expression.spell) ++ after) := by
          rw [text]
          simp
        rw [source] at derived
        rw [lastSource, byteLength_append before] at lastDerived
        refine ⟨values ++ [value], ?_, by simp [same, lastSame]⟩
        rw [text] at derived lastDerived ⊢
        rw [scanFrom_listText]
        exact .more derived (.inr (Token.isSymbol_ofText _ _)) lastDerived

theorem arguments {arguments : List Expression}
    (spellEach : ∀ argument ∈ arguments,
      Spells IsExpression resolve argument.spell argument.withNegations)
    (before after : List Char) :
    ∃ values, AreArguments ⟨before ++ (listText (arguments.map Expression.spell) ++ after), resolve⟩
        (Token.scanFrom .standard (byteLength before)
          (listText (arguments.map Expression.spell))) values ∧
      values.map Expression.eraseSpans =
        (arguments.map Expression.withNegations).map Expression.eraseSpans := by
  by_cases none : arguments = []
  · subst none
    exact ⟨[], .none, rfl⟩
  · obtain ⟨values, derived, same⟩ := listed none spellEach before after
    exact ⟨values, .some derived, same⟩

/-- A name before its arguments in parentheses. -/
theorem call {operation : Operation} {arguments : List Expression} {span : Span}
    (known : operation ∈ Catalog.standard.operations.values)
    (plain : Expression.isInfix operation.name = false)
    (accepted : operation.arity.accepts arguments.length = true)
    (spellEach : ∀ argument ∈ arguments,
      Spells IsExpression resolve argument.spell argument.withNegations) :
    Spells IsOperand resolve
      (operation.name.toList ++ '(' :: listText (arguments.map Expression.spell) ++ [')'])
      (.call operation (arguments.map Expression.withNegations) span) := by
  intro before after
  obtain ⟨values, derived, same⟩ := Spells.arguments spellEach
    (before ++ (operation.name.toList ++ ['('])) (')' :: after)
  have source : before ++ (operation.name.toList ++ ['(']) ++
      (listText (arguments.map Expression.spell) ++ ')' :: after) =
    before ++ (operation.name.toList ++ '(' :: listText (arguments.map Expression.spell) ++ [')'] ++
      after) := by
    simp
  have counts : values.length = arguments.length := by
    simpa using congrArg List.length same
  have isWord := Catalog.isWord_of_operation known plain
  have inside : byteLength before + byteLength operation.name.toList + '('.utf8Size =
      byteLength (before ++ (operation.name.toList ++ ['('])) := by
    simp only [byteLength_append, byteLength_cons, byteLength_nil]
    omega
  rw [source] at derived
  rw [Token.scanFrom_append_reserved _ _ rfl, Token.scanFrom_append_reserved _ _ rfl,
    Token.scanFrom_word _ isWord, inside]
  have kind (offset : Nat) := (Token.kind_ofText offset _).trans (Catalog.classify_operation known)
  refine ⟨_, .call (kind _) (Token.isReserved_ofText _ isWord)
    (Token.isSymbol_ofText _ _) derived (Token.isSymbol_ofText _ _) (by rwa [counts]), ?_⟩
  rw [Expression.eraseSpans_call, Expression.eraseSpans_call, same]

end Calls

end Spells

end InspectionFormula
