import InspectionFormula.Proofs.Parsing.Spans
import InspectionFormula.Proofs.Parsing.WellFormed

/-!
# Nodes cut out of their text

The tokens of a node stand in the part of the text that its span covers.  Scanned
alone, the part has the same tokens further to the left, and the grammar derives
the same node from them.
-/

namespace InspectionFormula

namespace Token

open Text

variable {catalog : Catalog} {offset distance : Nat} {text : List Char} {tokens : List Token}

/-- The tokens of a text that is moved to the left move with it. -/
theorem LaidOut.shiftLeft (laidOut : LaidOut catalog offset text tokens)
    (fits : distance ≤ offset) :
    LaidOut catalog (offset - distance) text (tokens.map (Token.shiftLeft distance)) := by
  induction laidOut with
  | blank isBlank => exact .blank isBlank
  | @token offset text blanks ink rest tokens isBlank isInk later same ih =>
      have starts : Token.shiftLeft distance (ofText catalog (offset + byteLength blanks) ink) =
          ofText catalog (offset - distance + byteLength blanks) ink := by
        simp only [Token.shiftLeft, ofText, Token.mk.injEq, true_and]
        omega
      have stops : offset + byteLength (blanks ++ ink) - distance =
          offset - distance + byteLength (blanks ++ ink) := by
        omega
      rw [List.map_cons, starts]
      refine .token isBlank isInk ?_ same
      rw [← stops]
      apply ih
      omega

theorem LaidOut.scan_eq (laidOut : LaidOut catalog offset text tokens) :
    scan catalog (String.ofList text) = tokens.map (Token.shiftLeft offset) := by
  rw [scan_eq_scanFrom, String.toList_ofList]
  have alone := laidOut.shiftLeft (Nat.le_refl offset)
  rw [Nat.sub_self] at alone
  exact alone.scanFrom_eq

end Token

namespace Grammar

open Token Expression

variable {distance : Nat}

theorem startOf_shiftLeft (tokens : List Token) :
    startOf (tokens.map (Token.shiftLeft distance)) = startOf tokens - distance := by
  cases tokens with
  | nil => simp [startOf]
  | cons token tokens => rfl

theorem stopOf_shiftLeft {tokens : List Token} (fits : ∀ token ∈ tokens, distance ≤ token.start) :
    stopOf (tokens.map (Token.shiftLeft distance)) = stopOf tokens - distance := by
  rw [stopOf, stopOf, List.getLast?_map]
  cases last : tokens.getLast? with
  | none => simp
  | some token => exact Token.stop_shiftLeft (fits token (List.mem_of_getLast? last))

theorem IsStep.shiftLeft {tokens : List Token} (isStep : IsStep tokens) :
    IsStep (tokens.map (Token.shiftLeft distance)) := by
  cases isStep with
  | name plain => exact .name plain
  | quoted opens within closes =>
      rw [List.map_append, List.map_cons]
      exact .quoted opens (by simpa [isSymbol_shiftLeft] using within) closes

theorem AreSteps.shiftLeft {tokens : List Token} (areSteps : AreSteps tokens) :
    AreSteps (tokens.map (Token.shiftLeft distance)) := by
  induction areSteps with
  | one isStep => exact .one isStep.shiftLeft
  | more steps separates isStep ih =>
      rw [List.map_append, List.map_cons]
      exact .more ih separates isStep.shiftLeft

theorem IsPath.shiftLeft {tokens : List Token} (isPath : IsPath tokens) :
    IsPath (tokens.map (Token.shiftLeft distance)) := by
  cases isPath with
  | root isSlash => exact .root isSlash
  | relative areSteps => exact .relative areSteps.shiftLeft
  | absolute isSlash areSteps => exact .absolute isSlash areSteps.shiftLeft

theorem IsKey.shiftLeft {tokens : List Token} {number : Option UInt16}
    (isKey : IsKey tokens number) :
    IsKey (tokens.map (Token.shiftLeft distance)) number := by
  cases isKey with
  | none => exact .none
  | some opens isNumber isKey closes => exact .some opens isNumber isKey closes

section Parts

variable {resolve : String → Option Path} {front part back : List Char}

/-- The tokens stand in the middle one of three parts of a text. -/
structure StandIn (front part : List Char) (tokens : List Token) : Prop where
  rising : Rising tokens
  after : ∀ token ∈ tokens, Text.byteLength front ≤ token.start
  before : ∀ token ∈ tokens, token.stop ≤ Text.byteLength front + Text.byteLength part

namespace StandIn

theorem sublist {tokens some : List Token} (standIn : StandIn front part tokens)
    (among : some.Sublist tokens) : StandIn front part some where
  rising := standIn.rising.sublist among
  after token member := standIn.after token (among.subset member)
  before token member := standIn.before token (among.subset member)

theorem left {early late : List Token} (standIn : StandIn front part (early ++ late)) :
    StandIn front part early :=
  standIn.sublist (List.sublist_append_left early late)

theorem right {early late : List Token} (standIn : StandIn front part (early ++ late)) :
    StandIn front part late :=
  standIn.sublist (List.sublist_append_right early late)

theorem tail {token : Token} {tokens : List Token}
    (standIn : StandIn front part (token :: tokens)) : StandIn front part tokens :=
  standIn.sublist (List.sublist_cons_self token tokens)

/-- Some tokens have the same text between them in the part as in the whole. -/
theorem textThrough_eq {tokens : List Token} (standIn : StandIn front part tokens)
    (nonempty : tokens ≠ []) :
    textThrough part (tokens.map (Token.shiftLeft (Text.byteLength front))) =
      textThrough (front ++ (part ++ back)) tokens := by
  have starts : Text.byteLength front ≤ startOf tokens := le_startOf nonempty standIn.after
  have stops : stopOf tokens ≤ Text.byteLength front + Text.byteLength part :=
    stopOf_le standIn.before
  have ordered : Text.byteLength front ≤ stopOf tokens := by
    obtain ⟨token, isLast⟩ := Option.isSome_iff_exists.1 (List.getLast?_isSome.2 nonempty)
    have member := List.mem_of_getLast? isLast
    have := standIn.after token member
    have := start_le_stop token
    rw [stopOf, isLast]
    change Text.byteLength front ≤ token.stop
    omega
  obtain ⟨start, startEq⟩ := Nat.exists_eq_add_of_le starts
  obtain ⟨stop, stopEq⟩ := Nat.exists_eq_add_of_le ordered
  rw [textThrough, textThrough, startOf_shiftLeft, stopOf_shiftLeft standIn.after, startEq, stopEq,
    Text.slice?_append_right, Text.slice?_append_left (by omega), Nat.add_sub_cancel_left,
    Nat.add_sub_cancel_left]

end StandIn

theorem StandIn.le_start_span {rules : ReferenceRules} {tokens : List Token} {value : Expression}
    (standIn : StandIn front part tokens) (derived : IsExpression rules tokens value) :
    Text.byteLength front ≤ value.span.start :=
  Grammar.le_start_span derived standIn.rising standIn.after

theorem StandIn.shiftLeft_through {first last : Token} {tokens : List Token}
    (standIn : StandIn front part tokens) (isFirst : first ∈ tokens) (isLast : last ∈ tokens) :
    (first.span.through last.span).shiftLeft (Text.byteLength front) =
      (first.shiftLeft (Text.byteLength front)).span.through
        (last.shiftLeft (Text.byteLength front)).span :=
  Span.shiftLeft_through (standIn.after first isFirst) (standIn.after last isLast)

mutual

/-- What is derived from tokens in a part of a text, is derived in the part alone. -/
theorem isExpression_shiftLeft {tokens : List Token} {value : Expression} :
    IsExpression ⟨front ++ (part ++ back), resolve⟩ tokens value → StandIn front part tokens →
      IsExpression ⟨part, resolve⟩ (tokens.map (Token.shiftLeft (Text.byteLength front)))
        (value.shiftLeft (Text.byteLength front))
  | .term isTerm, standIn => .term (isTerm_shiftLeft isTerm standIn)
  | .sum isSum isTerm isOperator known, standIn => by
      rw [List.map_append, List.map_cons, shiftLeft_operator _ (standIn.left.le_start_span isSum)
        (standIn.right.tail.le_start_span (.term isTerm))]
      exact .sum (isExpression_shiftLeft isSum standIn.left)
        (isTerm_shiftLeft isTerm standIn.right.tail) isOperator known

theorem isTerm_shiftLeft {tokens : List Token} {value : Expression} :
    IsTerm ⟨front ++ (part ++ back), resolve⟩ tokens value → StandIn front part tokens →
      IsTerm ⟨part, resolve⟩ (tokens.map (Token.shiftLeft (Text.byteLength front)))
        (value.shiftLeft (Text.byteLength front))
  | .factor isFactor, standIn => .factor (isFactor_shiftLeft isFactor standIn)
  | .product isProduct isFactor isOperator known, standIn => by
      rw [List.map_append, List.map_cons,
        shiftLeft_operator _ (standIn.left.le_start_span (.term isProduct))
          (standIn.right.tail.le_start_span (.term (.factor isFactor)))]
      exact .product (isTerm_shiftLeft isProduct standIn.left)
        (isFactor_shiftLeft isFactor standIn.right.tail) isOperator known

theorem isFactor_shiftLeft {tokens : List Token} {value : Expression} :
    IsFactor ⟨front ++ (part ++ back), resolve⟩ tokens value → StandIn front part tokens →
      IsFactor ⟨part, resolve⟩ (tokens.map (Token.shiftLeft (Text.byteLength front)))
        (value.shiftLeft (Text.byteLength front))
  | .operand isOperand, standIn => .operand (isOperand_shiftLeft isOperand standIn)
  | .plus isSign isOperand, standIn => .plus isSign (isOperand_shiftLeft isOperand standIn.tail)
  | @IsFactor.minus _ sign _ operand isSign isOperand, standIn => by
      have signFits : Text.byteLength front ≤ sign.span.start :=
        standIn.after sign List.mem_cons_self
      rw [List.map_cons, Expression.shiftLeft, Span.shiftLeft_through signFits
        (standIn.tail.le_start_span (.term (.factor (.operand isOperand)))),
        ← Expression.span_shiftLeft]
      exact .minus isSign (isOperand_shiftLeft isOperand standIn.tail)

theorem isOperand_shiftLeft {tokens : List Token} {value : Expression} :
    IsOperand ⟨front ++ (part ++ back), resolve⟩ tokens value → StandIn front part tokens →
      IsOperand ⟨part, resolve⟩ (tokens.map (Token.shiftLeft (Text.byteLength front)))
        (value.shiftLeft (Text.byteLength front))
  | .number isNumber, _ => .number isNumber
  | .constant isConstant, _ => .constant isConstant
  | @IsOperand.group _ opening closing _ value opens isExpression closes, standIn => by
      rw [List.map_append, List.map_cons, shiftLeft_withSpan,
        standIn.shiftLeft_through (by simp) (by simp)]
      exact .group opens (isExpression_shiftLeft isExpression standIn.left.tail) closes
  | @IsOperand.call _ name opening closing _ _ _ isOperation plain opens areArguments closes
      accepted, standIn => by
    rw [List.map_append, List.map_cons, List.map_cons, shiftLeft_call,
      standIn.shiftLeft_through (by simp) (by simp)]
    exact .call isOperation plain opens (areArguments_shiftLeft areArguments standIn.left.tail.tail)
      closes (by rwa [List.length_map])
  | @IsOperand.reference _ opening closing _ _ _ _ opens isPath isKey closes resolves, standIn => by
      rw [List.map_append, List.map_append, List.map_cons, Expression.shiftLeft,
        standIn.shiftLeft_through (by simp) (by simp)]
      refine .reference opens isPath.shiftLeft isKey.shiftLeft closes ?_
      rw [standIn.left.left.tail.textThrough_eq isPath.ne_nil]
      exact resolves

theorem areArguments_shiftLeft {tokens : List Token} {values : List Expression} :
    AreArguments ⟨front ++ (part ++ back), resolve⟩ tokens values → StandIn front part tokens →
      AreArguments ⟨part, resolve⟩ (tokens.map (Token.shiftLeft (Text.byteLength front)))
        (values.map (Expression.shiftLeft (Text.byteLength front)))
  | .none, _ => .none
  | .some areListed, standIn => .some (areListed_shiftLeft areListed standIn)

theorem areListed_shiftLeft {tokens : List Token} {values : List Expression} :
    AreListed ⟨front ++ (part ++ back), resolve⟩ tokens values → StandIn front part tokens →
      AreListed ⟨part, resolve⟩ (tokens.map (Token.shiftLeft (Text.byteLength front)))
        (values.map (Expression.shiftLeft (Text.byteLength front)))
  | .one isExpression, standIn => .one (isExpression_shiftLeft isExpression standIn)
  | .more areListed separates isExpression, standIn => by
      rw [List.map_append, List.map_append, List.map_cons]
      exact .more (areListed_shiftLeft areListed standIn.left) separates
        (isExpression_shiftLeft isExpression standIn.right.tail)

end

end Parts

end Grammar

open Grammar

/-- The text that the span of a node covers is read as the node. -/
theorem Expression.parse_of_hasNode {catalog : Catalog} {resolve : String → Option Path}
    {text : String} {root node : Expression} (spares : catalog.SparesReserved)
    (parsed : parse catalog resolve text = .ok root) (hasNode : root.HasNode node) :
    IsNested node ∧ ∃ part, Text.slice? text.toList node.span.start node.span.stop = some part ∧
      parse catalog resolve (String.ofList part) = .ok (node.shiftLeft node.span.start) := by
  obtain ⟨run, isRun, derived⟩ :=
    derivesWithin_of_isExpression (isExpression_of_parse parsed) hasNode
  have laidOut := Token.laidOut_scan catalog text
  have rising : Token.Rising run := laidOut.rising.sublist isRun.sublist
  refine ⟨isNested_of_isExpression derived rising, ?_⟩
  -- Plus signs before the node belong to the run, but not to the node's text.
  obtain ⟨core, isSuffix, derived, spans⟩ := Grammar.exists_core_of_isExpression derived rising
  obtain ⟨front, part, back, same, starts, stops, alone⟩ :=
    laidOut.exists_part (isSuffix.isInfix.trans isRun) spans.nonempty
  rw [Nat.zero_add] at starts
  have standIn : StandIn front part core := by
    refine ⟨rising.sublist isSuffix.sublist, ?_, ?_⟩
    · intro token member
      rw [starts]
      exact (alone.within token member).1
    · intro token member
      rw [starts]
      exact (alone.within token member).2.2
  refine ⟨part, ?_, ?_⟩
  · rw [spans.start, spans.stop, ← stops, ← starts, same]
    exact Text.slice?_append front part back
  · apply parse_of_isExpression spares
    rw [same] at derived
    rw [alone.scan_eq, String.toList_ofList, spans.start, ← starts]
    exact isExpression_shiftLeft derived standIn

namespace Dialect

/-- The span of a node covers the text of the node.  The spans of its children lie inside, one after
the other.  Read alone, the text gives the node, at the start. -/
theorem read_of_hasNode {text : String} {owner : Path} {formula : Formula} {node : Expression}
    (read : standard.read text owner = .ok formula) (hasNode : formula.root.HasNode node) :
    (∀ child ∈ node.children,
      node.span.start ≤ child.span.start ∧ child.span.stop ≤ node.span.stop) ∧
    node.children.Pairwise (fun earlier later => earlier.span.stop ≤ later.span.start) ∧
    ∃ part, Text.slice? text.toList node.span.start node.span.stop = some part ∧
      standard.read (String.ofList part) owner =
        .ok ⟨node.shiftLeft node.span.start, String.ofList part, owner⟩ := by
  obtain ⟨root, parsed, rfl⟩ := read_eq_ok_iff.1 read
  obtain ⟨⟨within, apart⟩, part, isPart, parsedPart⟩ :=
    Expression.parse_of_hasNode Catalog.standard_sparesReserved parsed hasNode
  exact ⟨within, apart, part, isPart, read_eq_ok_iff.2 ⟨_, parsedPart, rfl⟩⟩

theorem read_of_group_after_plus :
    ∃ (text part : String) (formula : Formula) (node : Expression),
      text = "\x7b\"ü\"\x7d * +( 1 - 2 )" ∧ part = "( 1 - 2 )" ∧
      standard.read text .root = .ok formula ∧ formula.root.HasNode node ∧
      node.span = ⟨10, 9⟩ ∧ node.children.Pairwise (fun earlier later =>
        earlier.span.stop ≤ later.span.start) ∧
      standard.read part .root = .ok ⟨node.shiftLeft 10, part, .root⟩ := by
  let text := "\x7b\"ü\"\x7d * +( 1 - 2 )"
  have accepted : (standard.read text .root).toOption.any
      (fun formula => formula.root.children.any fun child => child.span == ⟨10, 9⟩) = true := by
    decide +kernel
  obtain ⟨formula, read, covers⟩ := exists_eq_ok_of_any accepted
  obtain ⟨node, isChild, covers⟩ := List.any_eq_true.1 covers
  have spans : node.span = ⟨10, 9⟩ := eq_of_beq covers
  have hasNode : formula.root.HasNode node := .inChild isChild .root
  obtain ⟨-, apart, part, isPart, readPart⟩ := read_of_hasNode read hasNode
  have samePart : "( 1 - 2 )".toList = part := by
    have cut : Text.slice? text.toList 10 19 = some "( 1 - 2 )".toList := by decide +kernel
    rw [spans] at isPart
    exact Option.some.inj (cut.symm.trans isPart)
  rw [spans, ← samePart, String.ofList_toList] at readPart
  exact ⟨text, "( 1 - 2 )", formula, node, rfl, rfl, read, hasNode, spans, apart, readPart⟩

end Dialect

end InspectionFormula
