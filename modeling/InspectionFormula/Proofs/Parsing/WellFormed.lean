import InspectionFormula.Dialect
import InspectionFormula.Proofs.Expression.Readable
import InspectionFormula.Proofs.Parsing.Completeness

/-!
# Nodes of read expressions

Every node of an expression that is read is derived from a run of the tokens.
Without the plus signs and parentheses around it, the run says what the node is
and what it consists of.
-/

namespace InspectionFormula

namespace Grammar

open Expression

variable {rules : ReferenceRules} {tokens inner : List Token} {value node : Expression}

/-- The expression is derived from a run of the tokens. -/
def DerivesWithin (rules : ReferenceRules) (tokens : List Token) (node : Expression) : Prop :=
  ∃ run, run <:+: tokens ∧ IsExpression rules run node

theorem DerivesWithin.mono (within : DerivesWithin rules inner node)
    (among : inner <:+: tokens) : DerivesWithin rules tokens node := by
  obtain ⟨run, isRun, derived⟩ := within
  exact ⟨run, isRun.trans among, derived⟩

theorem DerivesWithin.of_children (derived : IsExpression rules tokens value)
    (inChildren : ∀ child ∈ value.children, child.HasNode node → DerivesWithin rules tokens node)
    (hasNode : value.HasNode node) : DerivesWithin rules tokens node := by
  rcases hasNode_iff.1 hasNode with rfl | ⟨child, isChild, hasNode⟩
  · exact ⟨tokens, List.infix_rfl, derived⟩
  · exact inChildren child isChild hasNode

theorem derivesWithin_operator {operation : Operation} {left right : Expression} {span : Span}
    {front back : List Token} {operator : Token}
    (derived : IsExpression rules (front ++ operator :: back) (.call operation [left, right] span))
    (ofLeft : left.HasNode node → DerivesWithin rules front node)
    (ofRight : right.HasNode node → DerivesWithin rules back node) :
    (call operation [left, right] span).HasNode node →
      DerivesWithin rules (front ++ operator :: back) node := by
  apply DerivesWithin.of_children derived
  intro child isChild hasNode
  simp only [children, List.mem_cons, List.not_mem_nil, or_false] at isChild
  rcases isChild with rfl | rfl
  · exact (ofLeft hasNode).mono (List.prefix_append front _).isInfix
  · exact (ofRight hasNode).mono
      ((List.suffix_cons operator back).trans (List.suffix_append front _)).isInfix

theorem derivesWithin_operand (isOperand : IsOperand rules tokens value)
    (inChildren : ∀ child ∈ value.children, child.HasNode node → DerivesWithin rules tokens node) :
    value.HasNode node → DerivesWithin rules tokens node :=
  .of_children (.term (.factor (.operand isOperand))) inChildren

mutual

/-- Every node of a derived expression is derived from a run of the tokens. -/
theorem derivesWithin_of_isExpression {tokens : List Token} {value : Expression} :
    IsExpression rules tokens value → value.HasNode node → DerivesWithin rules tokens node
  | .term isTerm => derivesWithin_of_isTerm isTerm
  | .sum isSum isTerm isOperator known =>
      derivesWithin_operator (.sum isSum isTerm isOperator known)
        (derivesWithin_of_isExpression isSum) (derivesWithin_of_isTerm isTerm)

theorem derivesWithin_of_isTerm {tokens : List Token} {value : Expression} :
    IsTerm rules tokens value → value.HasNode node → DerivesWithin rules tokens node
  | .factor isFactor => derivesWithin_of_isFactor isFactor
  | .product isProduct isFactor isOperator known =>
      derivesWithin_operator (.term (.product isProduct isFactor isOperator known))
        (derivesWithin_of_isTerm isProduct) (derivesWithin_of_isFactor isFactor)

theorem derivesWithin_of_isFactor {tokens : List Token} {value : Expression} :
    IsFactor rules tokens value → value.HasNode node → DerivesWithin rules tokens node
  | .operand isOperand => derivesWithin_of_isOperand isOperand
  | .plus _ isOperand => fun hasNode =>
      (derivesWithin_of_isOperand isOperand hasNode).mono (List.suffix_cons _ _).isInfix
  | .minus isSign isOperand => by
      apply DerivesWithin.of_children (.term (.factor (.minus isSign isOperand)))
      intro child isChild hasNode
      rw [List.mem_singleton.1 isChild] at hasNode
      exact (derivesWithin_of_isOperand isOperand hasNode).mono (List.suffix_cons _ _).isInfix

theorem derivesWithin_of_isOperand {tokens : List Token} {value : Expression} :
    IsOperand rules tokens value → value.HasNode node → DerivesWithin rules tokens node
  | .number isNumber => derivesWithin_operand (.number isNumber) fun _ isChild => nomatch isChild
  | .constant isConstant =>
      derivesWithin_operand (.constant isConstant) fun _ isChild => nomatch isChild
  | .group opens isExpression closes => by
      -- A group is one node with the expression inside, so only its children lie inside.
      apply derivesWithin_operand (.group opens isExpression closes)
      intro child isChild hasNode
      rw [children_withSpan] at isChild
      exact (derivesWithin_of_isExpression isExpression (.inChild isChild hasNode)).mono
        (List.infix_append [_] _ [_])
  | .call isOperation plain opens areArguments closes accepted => by
      apply derivesWithin_operand (.call isOperation plain opens areArguments closes accepted)
      intro child isChild hasNode
      exact (derivesWithin_of_areArguments areArguments child isChild hasNode).mono
        (List.infix_append [_, _] _ [_])
  | .reference opens isPath isKey closes resolves =>
      derivesWithin_operand (.reference opens isPath isKey closes resolves)
        fun _ isChild => nomatch isChild

theorem derivesWithin_of_areArguments {tokens : List Token} {values : List Expression} :
    AreArguments rules tokens values → ∀ value ∈ values, value.HasNode node →
      DerivesWithin rules tokens node
  | .none => fun _ member => nomatch member
  | .some areListed => derivesWithin_of_areListed areListed

theorem derivesWithin_of_areListed {tokens : List Token} {values : List Expression} :
    AreListed rules tokens values → ∀ value ∈ values, value.HasNode node →
      DerivesWithin rules tokens node
  | .one isExpression => by
      intro value member hasNode
      rw [List.mem_singleton.1 member] at hasNode
      exact derivesWithin_of_isExpression isExpression hasNode
  | .more areListed _ isExpression => by
      intro value member hasNode
      rcases List.mem_append.1 member with earlier | last
      · exact (derivesWithin_of_areListed areListed value earlier hasNode).mono
          (List.prefix_append _ _).isInfix
      · rw [List.mem_singleton.1 last] at hasNode
        exact (derivesWithin_of_isExpression isExpression hasNode).mono
          ((List.suffix_cons _ _).trans (List.suffix_append _ _)).isInfix

end

/-- Tokens with plus signs before them and parentheses around them, which add no nodes. -/
inductive Encloses (core : List Token) : List Token → Prop where
  | bare : Encloses core core
  | plus {sign : Token} {tokens : List Token} (isSign : sign.isSymbol '+' = true)
      (encloses : Encloses core tokens) : Encloses core (sign :: tokens)
  | group {opening closing : Token} {tokens : List Token} (opens : opening.isSymbol '(' = true)
      (encloses : Encloses core tokens) (closes : closing.isSymbol ')' = true) :
      Encloses core (opening :: tokens ++ [closing])

end Grammar

namespace Expression

open Grammar

variable {catalog : Catalog} {anchor : Path} {source : List Char} {tokens : List Token}
  {value : Expression}

/-- What an expression is and consists of, as its tokens and the catalog say.  It is none of the
literals, which no tokens say. -/
inductive IsWellFormed (catalog : Catalog) (anchor : Path) (source : List Char) :
    List Token → Expression → Prop where
  | number {token : Token} {value : Binary64} {span : Span}
      (read : Binary64.readLiteral? token.text = some value) (finite : value.isFinite = true)
      (positive : value.negative = false) :
      IsWellFormed catalog anchor source [token] (.number value span)
  | constant {token : Token} {constant : Constant} {span : Span}
      (named : catalog.constant? token.name = some constant) :
      IsWellFormed catalog anchor source [token] (.constant constant span)
  | negate {sign : Token} {tokens : List Token} {operand : Expression} {span : Span}
      (isSign : sign.isSymbol '-' = true) :
      IsWellFormed catalog anchor source (sign :: tokens) (.negate operand span)
  | operator {front back : List Token} {operator : Token} {character : Char}
      {operation : Operation} {left right : Expression} {span : Span}
      (isOperator : character = '+' ∨ character = '-' ∨ character = '*' ∨ character = '/')
      (symbol : operator.isSymbol character = true) (named : operation.name = operator.name)
      (registered : catalog.operation? operation.name = some operation) :
      IsWellFormed catalog anchor source (front ++ operator :: back)
        (.call operation [left, right] span)
  | call {name opening closing : Token} {tokens : List Token} {operation : Operation}
      {arguments : List Expression} {span : Span} (plain : name.isReserved = false)
      (opens : opening.isSymbol '(' = true) (closes : closing.isSymbol ')' = true)
      (named : catalog.operation? name.name = some operation)
      (registered : catalog.operation? operation.name = some operation)
      (accepted : operation.arity.accepts arguments.length = true) :
      IsWellFormed catalog anchor source (name :: opening :: tokens ++ [closing])
        (.call operation arguments span)
  | reference {opening closing : Token} {path key : List Token} {target : Path}
      {number : Option UInt16} {span : Span} (opens : opening.isSymbol '{' = true)
      (isPath : IsPath path) (isKey : IsKey key number) (closes : closing.isSymbol '}' = true)
      (isResolved : Path.IsResolved anchor (Text.trim (textThrough source path).toList) target) :
      IsWellFormed catalog anchor source (opening :: path ++ key ++ [closing])
        (.reference ⟨target, number⟩ span)

theorem IsWellFormed.withSpan (isWellFormed : IsWellFormed catalog anchor source tokens value)
    (span : Span) : IsWellFormed catalog anchor source tokens (value.withSpan span) := by
  cases isWellFormed with
  | number read finite positive => exact .number read finite positive
  | constant named => exact .constant named
  | negate isSign => exact .negate isSign
  | operator isOperator symbol named registered =>
      exact .operator isOperator symbol named registered
  | call plain opens closes named registered accepted =>
      exact .call plain opens closes named registered accepted
  | reference opens isPath isKey closes isResolved =>
      exact .reference opens isPath isKey closes isResolved

theorem registered_of_called {name : String} {operation : Operation}
    (called : catalog.operation? name = some operation) :
    catalog.operation? operation.name = some operation :=
  Catalog.operation?_eq_some_iff.2 ⟨(Catalog.operation?_eq_some_iff.1 called).1, rfl⟩

theorem isWellFormed_operator {front back : List Token} {operator : Token} {character : Char}
    {operation : Operation} {left right : Expression} {span : Span}
    (kind : TokenKind.classify catalog operator.text = .operation operation)
    (symbol : operator.isSymbol character = true)
    (isOperator : character = '+' ∨ character = '-' ∨ character = '*' ∨ character = '/') :
    IsWellFormed catalog anchor source (front ++ operator :: back)
      (.call operation [left, right] span) := by
  have text : operator.text = [character] := eq_of_beq symbol
  refine .operator isOperator symbol ?_ (registered_of_called (Token.operation?_of_classify kind))
  rw [← String.toList_inj, toList_name_of_operator kind symbol isOperator, Token.name,
    String.toList_ofList, text]

mutual

/-- Without what adds no nodes, the tokens of an expression say what it is. -/
theorem exists_core_of_isExpression {tokens : List Token} {value : Expression} :
    IsExpression ⟨source, Path.resolve? anchor⟩ tokens value → AreClassified catalog tokens →
      ∃ core, Encloses core tokens ∧ IsWellFormed catalog anchor source core value
  | .term isTerm, classified => exists_core_of_isTerm isTerm classified
  | .sum _ _ isOperator known, classified =>
      have kind := classified.right.head.symm.trans known
      ⟨_, .bare, isOperator.elim (fun plus => isWellFormed_operator kind plus (by simp))
        fun minus => isWellFormed_operator kind minus (by simp)⟩

theorem exists_core_of_isTerm {tokens : List Token} {value : Expression} :
    IsTerm ⟨source, Path.resolve? anchor⟩ tokens value → AreClassified catalog tokens →
      ∃ core, Encloses core tokens ∧ IsWellFormed catalog anchor source core value
  | .factor isFactor, classified => exists_core_of_isFactor isFactor classified
  | .product _ _ isOperator known, classified =>
      have kind := classified.right.head.symm.trans known
      ⟨_, .bare, isOperator.elim (fun times => isWellFormed_operator kind times (by simp))
        fun divides => isWellFormed_operator kind divides (by simp)⟩

theorem exists_core_of_isFactor {tokens : List Token} {value : Expression} :
    IsFactor ⟨source, Path.resolve? anchor⟩ tokens value → AreClassified catalog tokens →
      ∃ core, Encloses core tokens ∧ IsWellFormed catalog anchor source core value
  | .operand isOperand, classified => exists_core_of_isOperand isOperand classified
  | .plus isSign isOperand, classified => by
      obtain ⟨core, encloses, isWellFormed⟩ := exists_core_of_isOperand isOperand classified.tail
      exact ⟨core, .plus isSign encloses, isWellFormed⟩
  | .minus isSign _, _ => ⟨_, .bare, .negate isSign⟩

theorem exists_core_of_isOperand {tokens : List Token} {value : Expression} :
    IsOperand ⟨source, Path.resolve? anchor⟩ tokens value → AreClassified catalog tokens →
      ∃ core, Encloses core tokens ∧ IsWellFormed catalog anchor source core value
  | .number isNumber, classified => by
      have read := Token.readLiteral?_of_classify (classified.head.symm.trans isNumber)
      obtain ⟨finite, positive⟩ := Binary64.isFinite_of_readLiteral? read
      exact ⟨_, .bare, .number read finite positive⟩
  | .constant isConstant, classified =>
      ⟨_, .bare, .constant (Token.constant?_of_classify (classified.head.symm.trans isConstant))⟩
  | .group opens isExpression closes, classified => by
      obtain ⟨core, encloses, isWellFormed⟩ :=
        exists_core_of_isExpression isExpression classified.left.tail
      exact ⟨core, .group opens encloses closes, isWellFormed.withSpan _⟩
  | .call isOperation plain opens _ closes accepted, classified => by
      have called := Token.operation?_of_classify (classified.head.symm.trans isOperation)
      exact ⟨_, .bare, .call plain opens closes called (registered_of_called called) accepted⟩
  | @IsOperand.reference _ _ _ path _ target _ opens isPath isKey closes resolves, _ =>
      have resolved : Path.resolve? anchor (textThrough source path) = some target := resolves
      ⟨_, .bare, .reference opens isPath isKey closes (Path.isResolved_of_resolve? resolved)⟩

end

end Expression

namespace Dialect

open Grammar Expression

/-- Every node of an expression that is read is derived from a run of the tokens and is well-formed.
There are no literals among the nodes. -/
theorem isWellFormed_of_read (catalog : Catalog) {text : String} {owner : Path} {formula : Formula}
    (read : (ofCatalog catalog).read text owner = .ok formula) :
    (∀ literal span, ¬ formula.root.HasNode (.literal literal span)) ∧
    ∀ node, formula.root.HasNode node →
      ∃ run core, run <:+: Token.scan catalog text ∧
        IsExpression ⟨text.toList, Path.resolve? owner.parent⟩ run node ∧ Encloses core run ∧
        IsWellFormed catalog owner.parent text.toList core node := by
  obtain ⟨root, parsed, rfl⟩ := read_eq_ok_iff.1 read
  have each (node : Expression) (hasNode : root.HasNode node) :
      ∃ run core, run <:+: Token.scan catalog text ∧
        IsExpression ⟨text.toList, Path.resolve? owner.parent⟩ run node ∧ Encloses core run ∧
        IsWellFormed catalog owner.parent text.toList core node := by
    obtain ⟨run, isRun, derived⟩ :=
      derivesWithin_of_isExpression (isExpression_of_parse parsed) hasNode
    have classified : AreClassified catalog run :=
      fun token member => Token.kind_of_mem_scan (isRun.subset member)
    obtain ⟨core, encloses, isWellFormed⟩ := exists_core_of_isExpression derived classified
    exact ⟨run, core, isRun, derived, encloses, isWellFormed⟩
  refine ⟨?_, each⟩
  intro literal span hasNode
  obtain ⟨run, core, -, -, -, isWellFormed⟩ := each _ hasNode
  cases isWellFormed

theorem isWellFormed_of_quoted_dots :
    ∃ (owner target : Path) (formula : Formula) (span : Span) (run core : List Token),
      (ofCatalog .standard).read "+(PI) - \x7b\"..\"(17)\x7d" owner = .ok formula ∧
      owner.parent.isRenderable = false ∧
      target = owner.parent.child ⟨.characteristic, ".."⟩ ∧
      formula.root.HasNode (.reference ⟨target, some 17⟩ span) ∧
      run <:+: Token.scan .standard "+(PI) - \x7b\"..\"(17)\x7d" ∧
      IsExpression ⟨"+(PI) - \x7b\"..\"(17)\x7d".toList, Path.resolve? owner.parent⟩ run
        (.reference ⟨target, some 17⟩ span) ∧
      Encloses core run ∧
      IsWellFormed .standard owner.parent "+(PI) - \x7b\"..\"(17)\x7d".toList core
        (.reference ⟨target, some 17⟩ span) := by
  let owner : Path := ⟨[⟨.part, "a\"b"⟩, ⟨.characteristic, "c"⟩]⟩
  let target : Path := owner.parent.child ⟨.characteristic, ".."⟩
  have accepted : ((ofCatalog .standard).read "+(PI) - \x7b\"..\"(17)\x7d" owner).toOption.any
      (fun formula => formula.root.children.any fun child =>
        child.shape == some ⟨target, some 17⟩) = true := by
    decide +kernel
  obtain ⟨formula, read, refers⟩ := exists_eq_ok_of_any accepted
  obtain ⟨child, isChild, refers⟩ := List.any_eq_true.1 refers
  obtain ⟨span, rfl⟩ := eq_reference_of_shape (eq_of_beq refers)
  have hasNode : formula.root.HasNode (.reference ⟨target, some 17⟩ span) := .inChild isChild .root
  obtain ⟨run, core, isRun, derived, encloses, isWellFormed⟩ :=
    (isWellFormed_of_read .standard read).2 _ hasNode
  exact ⟨owner, target, formula, span, run, core, read, by decide, rfl, hasNode, isRun, derived,
    encloses, isWellFormed⟩

end Dialect

end InspectionFormula
