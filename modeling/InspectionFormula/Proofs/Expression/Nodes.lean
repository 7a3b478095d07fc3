import InspectionFormula.Expression.Basic
import InspectionFormula.Token

/-!
# Nodes and spans of expressions

A statement about all expressions is proved from the children of each, and the
nodes of an expression are the expression itself and those of its children.  Two
texts of one formula give trees that differ in their spans only.  An expression
that is cut out of a text keeps its nodes, and all of their spans move to the
left by the same distance.
-/

namespace InspectionFormula

namespace Expression

variable {tree node : Expression}

@[elab_as_elim]
theorem children_induction {holds : Expression → Prop}
    (step : ∀ tree, (∀ child ∈ tree.children, holds child) → holds tree) (tree : Expression) :
    holds tree := by
  refine step tree ?_
  intro child isChild
  have smaller : sizeOf child < sizeOf tree := by
    cases tree with
    | negate operand span =>
        rw [children, List.mem_singleton] at isChild
        subst isChild
        simp
        omega
    | call operation arguments span =>
        have inList : child ∈ arguments := isChild
        have := List.sizeOf_lt_of_mem inList
        simp
        omega
    | number | constant | literal | reference => cases isChild
  exact children_induction step child
termination_by sizeOf tree

theorem eq_reference_of_shape {target : Reference} (refers : tree.shape = some target) :
    ∃ span, tree = .reference target span := by
  cases tree with
  | reference other span =>
      cases refers
      exact ⟨span, rfl⟩
  | number | constant | literal | negate | call => cases refers

inductive HasNode : Expression → Expression → Prop where
  | root {tree : Expression} : HasNode tree tree
  | inChild {tree child node : Expression} (isChild : child ∈ tree.children)
      (hasNode : HasNode child node) : HasNode tree node

theorem hasNode_iff :
    tree.HasNode node ↔ node = tree ∨ ∃ child ∈ tree.children, child.HasNode node := by
  constructor
  · intro hasNode
    cases hasNode with
    | root => exact .inl rfl
    | inChild isChild hasNode => exact .inr ⟨_, isChild, hasNode⟩
  · rintro (rfl | ⟨child, isChild, hasNode⟩)
    · exact .root
    · exact .inChild isChild hasNode

theorem children_withSpan (tree : Expression) (span : Span) :
    (tree.withSpan span).children = tree.children := by
  cases tree <;> rfl

/-- The references in an expression that is none itself are those in its children. -/
theorem forall_references_iff {holds : Reference → Prop} (inner : tree.shape = none) :
    (∀ target span, tree.HasNode (.reference target span) → holds target) ↔
      ∀ child ∈ tree.children, ∀ target span, child.HasNode (.reference target span) →
        holds target := by
  constructor
  · intro each child isChild target span hasNode
    exact each target span (.inChild isChild hasNode)
  · intro each target span hasNode
    rcases hasNode_iff.1 hasNode with rfl | ⟨child, isChild, hasNode⟩
    · cases inner
    · exact each child isChild target span hasNode

mutual

/-- The tree with the same span everywhere. -/
def eraseSpans : Expression → Expression
  | number value _ => number value ⟨0, 0⟩
  | constant found _ => constant found ⟨0, 0⟩
  | literal text _ => literal text ⟨0, 0⟩
  | reference target _ => reference target ⟨0, 0⟩
  | negate operand _ => negate operand.eraseSpans ⟨0, 0⟩
  | call operation arguments _ => call operation (eraseSpansEach arguments) ⟨0, 0⟩

def eraseSpansEach : List Expression → List Expression
  | [] => []
  | first :: rest => first.eraseSpans :: eraseSpansEach rest

end

mutual

/-- The tree with every number of negative sign as the negation of its absolute value. -/
def withNegations : Expression → Expression
  | number value span =>
      if value.negative then negate (number value.abs span) span else number value span
  | constant found span => constant found span
  | literal text span => literal text span
  | reference target span => reference target span
  | negate operand span => negate operand.withNegations span
  | call operation arguments span => call operation (withNegationsEach arguments) span

def withNegationsEach : List Expression → List Expression
  | [] => []
  | first :: rest => first.withNegations :: withNegationsEach rest

end

theorem eraseSpansEach_eq_map (expressions : List Expression) :
    eraseSpansEach expressions = expressions.map eraseSpans := by
  induction expressions with
  | nil => rfl
  | cons first rest ih => rw [eraseSpansEach, ih, List.map_cons]

theorem withNegationsEach_eq_map (expressions : List Expression) :
    withNegationsEach expressions = expressions.map withNegations := by
  induction expressions with
  | nil => rfl
  | cons first rest ih => rw [withNegationsEach, ih, List.map_cons]

@[simp] theorem eraseSpans_withSpan (expression : Expression) (span : Span) :
    (expression.withSpan span).eraseSpans = expression.eraseSpans := by
  cases expression <;> rfl

theorem shape_eraseSpans (tree : Expression) : tree.eraseSpans.shape = tree.shape := by
  cases tree <;> rfl

theorem eraseSpans_call (operation : Operation) (arguments : List Expression) (span : Span) :
    (call operation arguments span).eraseSpans =
      call operation (arguments.map eraseSpans) ⟨0, 0⟩ := by
  rw [eraseSpans, eraseSpansEach_eq_map]

theorem withNegations_call (operation : Operation) (arguments : List Expression) (span : Span) :
    (call operation arguments span).withNegations =
      call operation (arguments.map withNegations) span := by
  rw [withNegations, withNegationsEach_eq_map]

end Expression

def Span.shiftLeft (distance : Nat) (span : Span) : Span := ⟨span.start - distance, span.length⟩

theorem Span.shiftLeft_through {distance : Nat} {first last : Span}
    (firstFits : distance ≤ first.start) (lastFits : distance ≤ last.start) :
    (first.through last).shiftLeft distance =
      (first.shiftLeft distance).through (last.shiftLeft distance) := by
  simp only [shiftLeft, through, stop, Span.mk.injEq, true_and]
  omega

namespace Token

def shiftLeft (distance : Nat) (token : Token) : Token :=
  { token with start := token.start - distance }

variable {distance : Nat} {token : Token}

theorem stop_shiftLeft (fits : distance ≤ token.start) :
    (token.shiftLeft distance).stop = token.stop - distance := by
  simp only [stop, length, shiftLeft]
  omega

theorem isSymbol_shiftLeft (character : Char) :
    (token.shiftLeft distance).isSymbol character = token.isSymbol character := rfl

end Token

namespace Expression

variable {distance : Nat}

mutual

/-- The tree with all spans that far to the left. -/
def shiftLeft (distance : Nat) : Expression → Expression
  | number value span => number value (span.shiftLeft distance)
  | constant found span => constant found (span.shiftLeft distance)
  | literal text span => literal text (span.shiftLeft distance)
  | reference target span => reference target (span.shiftLeft distance)
  | negate operand span => negate (operand.shiftLeft distance) (span.shiftLeft distance)
  | call operation arguments span =>
      call operation (shiftLeftEach distance arguments) (span.shiftLeft distance)

def shiftLeftEach (distance : Nat) : List Expression → List Expression
  | [] => []
  | first :: rest => first.shiftLeft distance :: shiftLeftEach distance rest

end

theorem shiftLeftEach_eq_map (expressions : List Expression) :
    shiftLeftEach distance expressions = expressions.map (shiftLeft distance) := by
  induction expressions with
  | nil => rfl
  | cons first rest ih => rw [shiftLeftEach, ih, List.map_cons]

theorem shiftLeft_call (operation : Operation) (arguments : List Expression) (span : Span) :
    (call operation arguments span).shiftLeft distance =
      call operation (arguments.map (shiftLeft distance)) (span.shiftLeft distance) := by
  rw [shiftLeft, shiftLeftEach_eq_map]

theorem span_shiftLeft (tree : Expression) :
    (tree.shiftLeft distance).span = tree.span.shiftLeft distance := by
  cases tree <;> simp only [shiftLeft, span]

/-- An operator and its operands move together. -/
theorem shiftLeft_operator {left right : Expression} (operation : Operation)
    (leftFits : distance ≤ left.span.start) (rightFits : distance ≤ right.span.start) :
    (call operation [left, right] (left.span.through right.span)).shiftLeft distance =
      call operation [left.shiftLeft distance, right.shiftLeft distance]
        ((left.shiftLeft distance).span.through (right.shiftLeft distance).span) := by
  rw [shiftLeft_call, Span.shiftLeft_through leftFits rightFits, span_shiftLeft, span_shiftLeft]
  rfl

theorem shiftLeft_withSpan (tree : Expression) (span : Span) :
    (tree.withSpan span).shiftLeft distance =
      (tree.shiftLeft distance).withSpan (span.shiftLeft distance) := by
  cases tree <;> simp only [shiftLeft, withSpan]

end Expression

end InspectionFormula
