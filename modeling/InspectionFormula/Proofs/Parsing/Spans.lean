import InspectionFormula.Proofs.Expression.Nodes
import InspectionFormula.Proofs.Token.Layout

/-!
# Spans of derived expressions

An expression spans the tokens that it is derived from, but for plus signs at
their start.  Inside the span of a node lie those of its children, one after the
other.
-/

namespace InspectionFormula

theorem Span.start_le_stop (span : Span) : span.start ≤ span.stop := Nat.le_add_right _ _

namespace Grammar

open Token Expression

/-- A span from the start of the first of some tokens to the end of the last one. -/
structure Spans (tokens : List Token) (span : Span) : Prop where
  nonempty : tokens ≠ []
  start : span.start = startOf tokens
  stop : span.stop = stopOf tokens

variable {rules : ReferenceRules} {low high : Nat}

theorem start_le_stop (token : Token) : token.start ≤ token.stop := token.span.start_le_stop

theorem spans_token (token : Token) : Spans [token] token.span := ⟨by simp, rfl, rfl⟩

/-- A span up to the end of some tokens ends with the last of them. -/
theorem Spans.through {front back core : List Token} {operator : Token} {first last : Span}
    (spansFront : Spans front first) (spansCore : Spans core last) (isSuffix : core <:+ back)
    (rising : Rising (front ++ operator :: back)) :
    Spans (front ++ operator :: back) (first.through last) := by
  have early : first.stop ≤ operator.start := by
    rw [spansFront.stop]
    exact stopOf_le rising.before
  have late : operator.stop ≤ last.start := by
    rw [spansCore.start]
    apply le_startOf spansCore.nonempty
    intro token member
    exact rising.right.after token (isSuffix.subset member)
  have ends : stopOf core = stopOf back := by
    obtain ⟨more, rfl⟩ := isSuffix
    exact (stopOf_append more spansCore.nonempty).symm
  have backNonempty : back ≠ [] := by
    rintro rfl
    exact spansCore.nonempty (List.suffix_nil.1 isSuffix)
  refine ⟨by simp, ?_, ?_⟩
  · rw [startOf_append spansFront.nonempty, Span.start_through, spansFront.start]
  · rw [stopOf_append front (by simp), stopOf_cons operator backNonempty, Span.stop_through,
      ← ends, ← spansCore.stop]
    have := start_le_stop operator
    have := last.start_le_stop
    omega

theorem spans_brackets {opening closing : Token} {inner : List Token}
    (rising : Rising (opening :: inner ++ [closing])) :
    Spans (opening :: inner ++ [closing]) (opening.span.through closing.span) := by
  have early : opening.stop ≤ closing.start := rising.before opening List.mem_cons_self
  refine ⟨by simp, rfl, ?_⟩
  rw [stopOf_append _ (by simp), stopOf_singleton, Span.stop_through, stop_span, stop_span]
  have := start_le_stop closing
  omega

theorem spans_of_isOperand {tokens : List Token} {value : Expression}
    (isOperand : IsOperand rules tokens value) (rising : Rising tokens) :
    Spans tokens value.span := by
  cases isOperand with
  | number => exact spans_token _
  | constant => exact spans_token _
  | group =>
      rw [span_withSpan]
      exact spans_brackets rising
  | call => exact spans_brackets rising
  | reference => exact spans_brackets rising

theorem exists_core_of_isFactor {tokens : List Token} {value : Expression}
    (isFactor : IsFactor rules tokens value) (rising : Rising tokens) :
    ∃ core, core <:+ tokens ∧ IsFactor rules core value ∧ Spans core value.span := by
  cases isFactor with
  | operand isOperand =>
      exact ⟨tokens, List.suffix_rfl, .operand isOperand, spans_of_isOperand isOperand rising⟩
  | @plus sign inner _ isSign isOperand =>
      exact ⟨inner, List.suffix_cons sign inner, .operand isOperand,
        spans_of_isOperand isOperand rising.tail⟩
  | @minus sign inner operand isSign isOperand =>
      refine ⟨_, List.suffix_rfl, .minus isSign isOperand, ?_⟩
      have inside := spans_of_isOperand isOperand rising.tail
      have late : sign.stop ≤ operand.span.start := by
        rw [inside.start]
        exact le_startOf inside.nonempty rising.after
      refine ⟨by simp, rfl, ?_⟩
      rw [stopOf_cons sign inside.nonempty, ← inside.stop]
      change (sign.span.through operand.span).stop = operand.span.stop
      rw [Span.stop_through, stop_span]
      have := operand.span.start_le_stop
      omega

theorem suffix_append_of_suffix {front core : List Token} (isSuffix : core <:+ front)
    (back : List Token) : core ++ back <:+ front ++ back := by
  obtain ⟨more, rfl⟩ := isSuffix
  exact ⟨more, by simp⟩

theorem exists_core_of_isTerm {tokens : List Token} {value : Expression} :
    IsTerm rules tokens value → Rising tokens →
      ∃ core, core <:+ tokens ∧ IsTerm rules core value ∧ Spans core value.span
  | .factor isFactor, rising => by
      obtain ⟨core, isSuffix, derived, spans⟩ := exists_core_of_isFactor isFactor rising
      exact ⟨core, isSuffix, .factor derived, spans⟩
  | .product isProduct isFactor isOperator known, rising => by
      obtain ⟨front, isFront, derived, spansFront⟩ := exists_core_of_isTerm isProduct rising.left
      obtain ⟨core, isSuffix, -, spansCore⟩ := exists_core_of_isFactor isFactor rising.right.tail
      refine ⟨_, suffix_append_of_suffix isFront _, .product derived isFactor isOperator known, ?_⟩
      apply spansFront.through spansCore isSuffix
      exact rising.sublist (suffix_append_of_suffix isFront _).sublist

/-- An expression is derived from just the tokens that it spans. -/
theorem exists_core_of_isExpression {tokens : List Token} {value : Expression} :
    IsExpression rules tokens value → Rising tokens →
      ∃ core, core <:+ tokens ∧ IsExpression rules core value ∧ Spans core value.span
  | .term isTerm, rising => by
      obtain ⟨core, isSuffix, derived, spans⟩ := exists_core_of_isTerm isTerm rising
      exact ⟨core, isSuffix, .term derived, spans⟩
  | .sum isSum isTerm isOperator known, rising => by
      obtain ⟨front, isFront, derived, spansFront⟩ := exists_core_of_isExpression isSum rising.left
      obtain ⟨core, isSuffix, -, spansCore⟩ := exists_core_of_isTerm isTerm rising.right.tail
      refine ⟨_, suffix_append_of_suffix isFront _, .sum derived isTerm isOperator known, ?_⟩
      apply spansFront.through spansCore isSuffix
      exact rising.sublist (suffix_append_of_suffix isFront _).sublist

theorem le_start_span {tokens : List Token} {value : Expression}
    (derived : IsExpression rules tokens value) (rising : Rising tokens)
    (after : ∀ token ∈ tokens, low ≤ token.start) : low ≤ value.span.start := by
  obtain ⟨core, isSuffix, -, spans⟩ := exists_core_of_isExpression derived rising
  rw [spans.start]
  exact le_startOf spans.nonempty fun token member => after token (isSuffix.subset member)

theorem stop_span_le {tokens : List Token} {value : Expression}
    (derived : IsExpression rules tokens value) (rising : Rising tokens)
    (before : ∀ token ∈ tokens, token.stop ≤ high) : value.span.stop ≤ high := by
  obtain ⟨core, isSuffix, -, spans⟩ := exists_core_of_isExpression derived rising
  rw [spans.stop]
  exact stopOf_le fun token member => before token (isSuffix.subset member)

/-- Inside the span of a node lie those of its children, one after the other. -/
structure IsNested (node : Expression) : Prop where
  within : ∀ child ∈ node.children,
    node.span.start ≤ child.span.start ∧ child.span.stop ≤ node.span.stop
  apart : node.children.Pairwise fun earlier later => earlier.span.stop ≤ later.span.start

theorem isNested_of_no_children {node : Expression} (leaf : node.children = []) :
    IsNested node := by
  constructor
  · simp [leaf]
  · simp [leaf]

theorem isNested_operator {front back : List Token} {operator : Token} {operation : Operation}
    {left right : Expression} (isLeft : IsExpression rules front left)
    (isRight : IsExpression rules back right) (rising : Rising (front ++ operator :: back)) :
    IsNested (.call operation [left, right] (left.span.through right.span)) := by
  have early : left.span.stop ≤ operator.start := stop_span_le isLeft rising.left rising.before
  have late : operator.stop ≤ right.span.start :=
    le_start_span isRight rising.right.tail rising.right.after
  have := start_le_stop operator
  have := left.span.start_le_stop
  constructor
  · intro child isChild
    change child ∈ [left, right] at isChild
    change left.span.start ≤ _ ∧ _ ≤ (left.span.through right.span).stop
    rw [Span.stop_through]
    simp only [List.mem_cons, List.not_mem_nil, or_false] at isChild
    rcases isChild with rfl | rfl
    · omega
    · omega
  · change [left, right].Pairwise _
    rw [List.pairwise_pair]
    omega

/-- The arguments of a call lie between its brackets, one after the other. -/
theorem spans_of_areListed {low high : Nat} {tokens : List Token} {values : List Expression} :
    AreListed rules tokens values → Rising tokens → (∀ token ∈ tokens, low ≤ token.start) →
      (∀ token ∈ tokens, token.stop ≤ high) →
      (∀ value ∈ values, low ≤ value.span.start ∧ value.span.stop ≤ high) ∧
        values.Pairwise fun earlier later => earlier.span.stop ≤ later.span.start
  | .one isExpression, rising, after, before => by
      refine ⟨?_, List.pairwise_singleton _ _⟩
      intro value member
      rw [List.mem_singleton.1 member]
      exact ⟨le_start_span isExpression rising after, stop_span_le isExpression rising before⟩
  | @AreListed.more _ tokens last earlier value separator areListed separates isExpression,
      rising, after, before => by
    have here : separator ∈ tokens ++ separator :: last := by simp
    obtain ⟨within, apart⟩ := spans_of_areListed areListed rising.left
      (fun token member => after token (List.mem_append_left _ member)) rising.before
    have late : separator.stop ≤ value.span.start :=
      le_start_span isExpression rising.right.tail rising.right.after
    have stops : value.span.stop ≤ high := by
      apply stop_span_le isExpression rising.right.tail
      intro token member
      exact before token (List.mem_append_right _ (List.mem_cons_of_mem _ member))
    have := after separator here
    have := before separator here
    have := start_le_stop separator
    constructor
    · intro other member
      rcases List.mem_append.1 member with old | new
      · have := within other old
        omega
      · rw [List.mem_singleton.1 new]
        omega
    · refine List.pairwise_append.2 ⟨apart, List.pairwise_singleton _ _, ?_⟩
      intro other old last isLast
      rw [List.mem_singleton.1 isLast]
      have := within other old
      omega

mutual

theorem isNested_of_isExpression {tokens : List Token} {value : Expression} :
    IsExpression rules tokens value → Rising tokens → IsNested value
  | .term isTerm, rising => isNested_of_isTerm isTerm rising
  | .sum isSum isTerm _ _, rising => isNested_operator isSum (.term isTerm) rising

theorem isNested_of_isTerm {tokens : List Token} {value : Expression} :
    IsTerm rules tokens value → Rising tokens → IsNested value
  | .factor isFactor, rising => isNested_of_isFactor isFactor rising
  | .product isProduct isFactor _ _, rising =>
      isNested_operator (.term isProduct) (.term (.factor isFactor)) rising

theorem isNested_of_isFactor {tokens : List Token} {value : Expression} :
    IsFactor rules tokens value → Rising tokens → IsNested value
  | .operand isOperand, rising => isNested_of_isOperand isOperand rising
  | .plus _ isOperand, rising => isNested_of_isOperand isOperand rising.tail
  | @IsFactor.minus _ sign _ operand isSign isOperand, rising => by
      have late : sign.stop ≤ operand.span.start :=
        le_start_span (.term (.factor (.operand isOperand))) rising.tail rising.after
      have := start_le_stop sign
      constructor
      · intro child isChild
        rw [List.mem_singleton.1 isChild]
        change sign.start ≤ _ ∧ _ ≤ (sign.span.through operand.span).stop
        rw [Span.stop_through]
        omega
      · exact List.pairwise_singleton _ _

theorem isNested_of_isOperand {tokens : List Token} {value : Expression} :
    IsOperand rules tokens value → Rising tokens → IsNested value
  | .number _, _ => isNested_of_no_children rfl
  | .constant _, _ => isNested_of_no_children rfl
  | .reference _ _ _ _ _, _ => isNested_of_no_children rfl
  | @IsOperand.group _ opening closing inner value opens isExpression closes, rising => by
      -- The parentheses widen the span of the node, so its children stay inside.
      have insideRising : Rising inner := rising.left.tail
      obtain ⟨within, apart⟩ := isNested_of_isExpression isExpression insideRising
      have late : opening.stop ≤ value.span.start :=
        le_start_span isExpression insideRising rising.left.after
      have early : value.span.stop ≤ closing.start :=
        stop_span_le isExpression insideRising fun token member =>
          rising.before token (List.mem_cons_of_mem _ member)
      have := start_le_stop opening
      have := start_le_stop closing
      constructor
      · intro child isChild
        rw [children_withSpan] at isChild
        have := within child isChild
        rw [span_withSpan, Span.start_through, Span.stop_through, start_span, stop_span, stop_span]
        omega
      · rw [children_withSpan]
        exact apart
  | .call _ _ _ .none _ _, _ => isNested_of_no_children rfl
  | @IsOperand.call _ name opening closing operation inner arguments _ _ _ (.some areListed) _ _,
      rising => by
    have insideRising : Rising inner := rising.left.tail.tail
    obtain ⟨within, apart⟩ := spans_of_areListed areListed insideRising
      (fun token member => rising.left.after token (List.mem_cons_of_mem _ member))
      fun token member =>
        rising.before token (List.mem_cons_of_mem _ (List.mem_cons_of_mem _ member))
    have := start_le_stop name
    have := start_le_stop closing
    refine ⟨?_, apart⟩
    intro child isChild
    have := within child isChild
    change name.start ≤ _ ∧ _ ≤ (name.span.through closing.span).stop
    rw [Span.stop_through, stop_span, stop_span]
    omega

end

end Grammar

end InspectionFormula
