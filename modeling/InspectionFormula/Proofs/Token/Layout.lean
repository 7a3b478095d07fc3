import InspectionFormula.Proofs.Parsing.Grammar
import InspectionFormula.Proofs.Token.Concatenation

/-!
# How tokens lie in a text

The tokens of a text stand in it one after the other, with white space around
them and nothing else.  A part of the text that ends or starts where a token does
is scanned as the tokens that stand in it.
-/

namespace InspectionFormula

namespace Text

def IsBlank (text : List Char) : Prop := ∀ character ∈ text, isWhiteSpace character = true

/-- The first character that is not white space, if there is one, is reserved. -/
def IsSeparated (text : List Char) : Prop :=
  ∀ character, (text.dropWhile isWhiteSpace).head? = some character →
    isReserved character = true

/-- The text of a token before some other text. -/
inductive IsInk (rest : List Char) : List Char → Prop where
  | reserved {character : Char} (reserved : isReserved character = true) : IsInk rest [character]
  | word {ink : List Char} (isWord : IsWord ink) (isSeparated : IsSeparated rest) : IsInk rest ink

variable {text blanks front back ink : List Char}

theorem isBlank_nil : IsBlank [] := fun _ member => nomatch member

theorem isBlank_takeWhile (text : List Char) : IsBlank (text.takeWhile isWhiteSpace) :=
  List.all_eq_true.1 List.all_takeWhile

theorem isWhiteSpace_head_dropWhile (text : List Char) {first : Char}
    (isFirst : (text.dropWhile isWhiteSpace).head? = some first) : isWhiteSpace first = false := by
  have stops := List.head?_dropWhile_not isWhiteSpace text
  rw [isFirst] at stops
  simpa using stops

theorem dropWhile_blank_append (isBlank : IsBlank blanks) (text : List Char) :
    (blanks ++ text).dropWhile isWhiteSpace = text.dropWhile isWhiteSpace :=
  List.dropWhile_append_of_pos isBlank

theorem IsSeparated.left (isSeparated : IsSeparated (front ++ back)) : IsSeparated front := by
  intro character isFirst
  apply isSeparated character
  rw [List.dropWhile_append]
  cases kept : front.dropWhile isWhiteSpace with
  | nil => simp [kept] at isFirst
  | cons first rest => simpa [kept] using isFirst

theorem isSeparated_blank_append (isBlank : IsBlank blanks)
    (starts : ∀ character, back.head? = some character → isReserved character = true) :
    IsSeparated (blanks ++ back) := by
  intro character isFirst
  rw [dropWhile_blank_append isBlank] at isFirst
  cases back with
  | nil => cases isFirst
  | cons first back =>
      have reserved := starts first rfl
      rw [List.dropWhile_cons_of_neg (by simp [Token.isWhiteSpace_of_isReserved reserved])]
        at isFirst
      cases isFirst
      exact reserved

theorem IsInk.left (isInk : IsInk (front ++ back) ink) : IsInk front ink := by
  cases isInk with
  | reserved reserved => exact .reserved reserved
  | word isWord isSeparated => exact .word isWord isSeparated.left

theorem IsInk.alone {rest : List Char} (isInk : IsInk rest ink) : IsInk [] ink :=
  IsInk.left isInk

theorem IsInk.nonempty {rest : List Char} (isInk : IsInk rest ink) : ink ≠ [] := by
  cases isInk with
  | reserved => simp
  | word isWord => exact isWord.nonempty

theorem IsInk.trimmed {rest : List Char} (isInk : IsInk rest ink) : trim ink = ink := by
  cases isInk with
  | reserved reserved =>
      rw [trim_eq_self_iff]
      simp [Token.isWhiteSpace_of_isReserved reserved]
  | word isWord => exact isWord.trimmed

/-- The text of a token that starts with a reserved character is that character. -/
theorem IsInk.eq_of_head {rest : List Char} {character : Char} (isInk : IsInk rest ink)
    (starts : ink.head? = some character) (reserved : isReserved character = true) :
    ink = [character] := by
  cases isInk with
  | reserved =>
      cases starts
      rfl
  | word isWord =>
      have plain := isWord.unreserved character (List.mem_of_mem_head? starts)
      rw [reserved] at plain
      cases plain

/-- What trimming takes off is white space. -/
theorem exists_blanks_around (text : List Char) :
    ∃ front back, IsBlank front ∧ IsBlank back ∧ text = front ++ (trim text ++ back) := by
  let kept := (trimStart text).reverse
  refine ⟨text.takeWhile isWhiteSpace, (kept.takeWhile isWhiteSpace).reverse,
    isBlank_takeWhile text, ?_, ?_⟩
  · intro character member
    exact isBlank_takeWhile kept character (List.mem_reverse.1 member)
  · have ends : trim text ++ (kept.takeWhile isWhiteSpace).reverse = trimStart text := by
      rw [trim, trimEnd, ← List.reverse_append, List.takeWhile_append_dropWhile,
        List.reverse_reverse]
    rw [ends]
    exact List.takeWhile_append_dropWhile.symm

theorem trim_trim (text : List Char) : trim (trim text) = trim text := by
  obtain ⟨back, parts⟩ : trim text <+: trimStart text := by
    refine ⟨((trimStart text).reverse.takeWhile isWhiteSpace).reverse, ?_⟩
    rw [trim, trimEnd, ← List.reverse_append, List.takeWhile_append_dropWhile,
      List.reverse_reverse]
  rw [trim_eq_self_iff]
  constructor
  · intro first isFirst
    apply isWhiteSpace_head_dropWhile text
    rw [← trimStart, ← parts, List.head?_append, isFirst]
    rfl
  · intro last isLast
    apply isWhiteSpace_head_dropWhile (trimStart text).reverse
    rwa [trim, trimEnd, List.getLast?_reverse] at isLast

theorem trim_blank_append (isBlank : IsBlank blanks) (text : List Char) :
    trim (blanks ++ text) = trim text := by
  rw [trim, trimStart, dropWhile_blank_append isBlank]
  rfl

theorem trim_append_of_isBlank (isBlank : IsBlank blanks) (text : List Char) :
    trim (text ++ blanks) = trim text := by
  induction blanks generalizing text with
  | nil => rw [List.append_nil]
  | cons blank blanks ih =>
      obtain ⟨first, others⟩ := List.forall_mem_cons.1 isBlank
      rw [← List.singleton_append, ← List.append_assoc, ih others, trim_append_blank first]

theorem IsBlank.unreserved (isBlank : IsBlank blanks) :
    ∀ character ∈ blanks, isReserved character = false := fun character member =>
  Token.isReserved_of_isWhiteSpace (isBlank character member)

theorem isBlank_of_trim_eq_nil {text : List Char} (blank : trim text = []) : IsBlank text := by
  obtain ⟨front, back, frontBlank, backBlank, same⟩ := exists_blanks_around text
  intro character member
  rw [same, blank, List.nil_append, List.mem_append] at member
  exact member.elim (frontBlank character) (backBlank character)

theorem isWord_trim (ink : trim text ≠ [])
    (unreserved : ∀ character ∈ text, isReserved character = false) : IsWord (trim text) where
  nonempty := ink
  trimmed := trim_trim text
  unreserved character member := unreserved character (mem_of_mem_trim member)

end Text

namespace Grammar

variable {tokens : List Token} {low high : Nat}

theorem le_startOf (nonempty : tokens ≠ []) (after : ∀ token ∈ tokens, low ≤ token.start) :
    low ≤ startOf tokens := by
  obtain ⟨first, rest, rfl⟩ := List.exists_cons_of_ne_nil nonempty
  exact after first List.mem_cons_self

theorem stopOf_le (before : ∀ token ∈ tokens, token.stop ≤ high) : stopOf tokens ≤ high := by
  rw [stopOf]
  cases last : tokens.getLast? with
  | none => exact Nat.zero_le high
  | some token => exact before token (List.mem_of_getLast? last)

end Grammar

namespace Token

open Text Grammar

variable {catalog : Catalog} {offset : Nat} {text blanks word rest : List Char}
  {tokens early late run : List Token}

theorem scanFrom_blank_append (isBlank : IsBlank blanks) (offset : Nat) (text : List Char) :
    scanFrom catalog offset (blanks ++ text) =
      scanFrom catalog (offset + byteLength blanks) text := by
  induction blanks generalizing offset with
  | nil => rfl
  | cons blank blanks ih =>
      obtain ⟨first, others⟩ := List.forall_mem_cons.1 isBlank
      rw [List.cons_append, scanFrom_cons_blank offset first, ih others, byteLength_cons,
        Nat.add_assoc]

theorem scanFrom_of_isBlank (isBlank : IsBlank text) (offset : Nat) :
    scanFrom catalog offset text = [] := by
  have alone : scanFrom catalog offset (text ++ []) =
      scanFrom catalog (offset + byteLength text) [] :=
    scanFrom_blank_append isBlank offset []
  rw [List.append_nil] at alone
  exact alone

theorem scanFrom_append_of_isBlank (isBlank : IsBlank blanks) (offset : Nat) (text : List Char) :
    scanFrom catalog offset (text ++ blanks) = scanFrom catalog offset text := by
  induction blanks generalizing text with
  | nil => rw [List.append_nil]
  | cons blank blanks ih =>
      obtain ⟨first, others⟩ := List.forall_mem_cons.1 isBlank
      rw [← List.singleton_append, ← List.append_assoc, ih others,
        scanFrom_append_blank offset first]

theorem scanFrom_word_append (isWord : IsWord word) (isSeparated : IsSeparated rest)
    (offset : Nat) :
    scanFrom catalog offset (word ++ rest) =
      ofText catalog offset word :: scanFrom catalog (offset + byteLength word) rest := by
  obtain ⟨blanks, isBlank, after, same, starts⟩ : ∃ blanks, IsBlank blanks ∧ ∃ after,
      rest = blanks ++ after ∧ ∀ character, after.head? = some character →
        Text.isReserved character = true :=
    ⟨_, isBlank_takeWhile rest, _, List.takeWhile_append_dropWhile.symm, isSeparated⟩
  subst same
  rw [← List.append_assoc]
  cases after with
  | nil =>
      rw [List.append_nil, List.append_nil, scanFrom_append_of_isBlank isBlank,
        scanFrom_word offset isWord, scanFrom_of_isBlank isBlank]
  | cons reserved after =>
      have isReserved := starts reserved rfl
      rw [scanFrom_append_reserved offset _ isReserved, scanFrom_append_of_isBlank isBlank,
        scanFrom_word offset isWord, scanFrom_append_reserved _ blanks isReserved,
        scanFrom_of_isBlank isBlank, byteLength_append, ← Nat.add_assoc]
      rfl

/-- Tokens that stand in a text, which stands at an offset. -/
inductive LaidOut (catalog : Catalog) : Nat → List Char → List Token → Prop where
  | blank {offset : Nat} {text : List Char} (isBlank : IsBlank text) :
      LaidOut catalog offset text []
  | token {offset : Nat} {text blanks ink rest : List Char} {tokens : List Token}
      (isBlank : IsBlank blanks) (isInk : IsInk rest ink)
      (later : LaidOut catalog (offset + byteLength (blanks ++ ink)) rest tokens)
      (same : text = blanks ++ ink ++ rest) :
      LaidOut catalog offset text (ofText catalog (offset + byteLength blanks) ink :: tokens)

theorem LaidOut.scanFrom_eq (laidOut : LaidOut catalog offset text tokens) :
    scanFrom catalog offset text = tokens := by
  induction laidOut with
  | blank isBlank => exact scanFrom_of_isBlank isBlank _
  | @token offset text blanks ink rest tokens isBlank isInk later same ih =>
      rw [same, List.append_assoc, scanFrom_blank_append isBlank, ← ih, byteLength_append,
        ← Nat.add_assoc]
      cases isInk with
      | reserved reserved => exact scanFrom_cons_reserved _ reserved rest
      | word isWord isSeparated => exact scanFrom_word_append isWord isSeparated _

theorem LaidOut.blank_append (isBlank : IsBlank blanks)
    (laidOut : LaidOut catalog (offset + byteLength blanks) rest tokens) :
    LaidOut catalog offset (blanks ++ rest) tokens := by
  have joined {more : List Char} (moreBlank : IsBlank more) : IsBlank (blanks ++ more) := by
    intro character member
    exact (List.mem_append.1 member).elim (isBlank character) (moreBlank character)
  cases laidOut with
  | blank restBlank => exact .blank (joined restBlank)
  | @token _ _ inner ink after tokens innerBlank isInk later same =>
      have start : offset + byteLength blanks + byteLength inner =
          offset + byteLength (blanks ++ inner) := by
        rw [byteLength_append]
        omega
      rw [start]
      refine .token (joined innerBlank) isInk ?_ (by simp [same])
      have stop : offset + byteLength (blanks ++ inner ++ ink) =
          offset + byteLength blanks + byteLength (inner ++ ink) := by
        simp only [byteLength_append]
        omega
      rwa [stop]

/-- Characters that are not reserved hold at most one token. -/
theorem exists_laidOut_unreserved_append
    (unreserved : ∀ character ∈ word, Text.isReserved character = false)
    (starts : ∀ character, rest.head? = some character → Text.isReserved character = true)
    (laidOut : LaidOut catalog (offset + byteLength word) rest tokens) :
    ∃ all, LaidOut catalog offset (word ++ rest) all := by
  obtain ⟨front, back, frontBlank, backBlank, parts⟩ := exists_blanks_around word
  by_cases ink : trim word = []
  · exact ⟨tokens, .blank_append (isBlank_of_trim_eq_nil ink) laidOut⟩
  · have isInk : IsInk (back ++ rest) (trim word) :=
      .word (isWord_trim ink unreserved) (isSeparated_blank_append backBlank starts)
    have length := congrArg byteLength parts
    have stop : offset + byteLength word =
        offset + byteLength (front ++ trim word) + byteLength back := by
      simp only [byteLength_append] at length ⊢
      omega
    rw [stop] at laidOut
    have same : word ++ rest = front ++ trim word ++ (back ++ rest) :=
      (congrArg (· ++ rest) parts).trans (by simp)
    exact ⟨_, .token frontBlank isInk (.blank_append backBlank laidOut) same⟩

theorem exists_laidOut (catalog : Catalog) (offset : Nat) (text : List Char) :
    ∃ tokens, LaidOut catalog offset text tokens := by
  rcases Text.unreserved_or_first_reserved text with
    plain | ⟨word, reserved, back, same, isReserved, plain⟩
  · have none : LaidOut catalog (offset + byteLength text) [] [] :=
      .blank fun _ member => nomatch member
    have found := exists_laidOut_unreserved_append plain (by simp) none
    rwa [List.append_nil] at found
  · have shorter : back.length < text.length := by
      rw [same, List.length_append, List.length_cons]
      omega
    obtain ⟨tokens, laidOut⟩ := exists_laidOut catalog
      (offset + byteLength word + byteLength ([] ++ [reserved])) back
    rw [same]
    exact exists_laidOut_unreserved_append plain (by simpa using isReserved)
      (.token isBlank_nil (.reserved isReserved) laidOut rfl)
termination_by text.length

/-- The tokens that stand in a text are those that it is scanned as. -/
theorem laidOut_iff : LaidOut catalog offset text tokens ↔
    scanFrom catalog offset text = tokens := by
  constructor
  · exact LaidOut.scanFrom_eq
  · rintro rfl
    obtain ⟨tokens, laidOut⟩ := exists_laidOut catalog offset text
    rwa [laidOut.scanFrom_eq]

theorem laidOut_scan (catalog : Catalog) (formula : String) :
    LaidOut catalog 0 formula.toList (scan catalog formula) :=
  laidOut_iff.2 (scan_eq_scanFrom formula).symm

theorem LaidOut.within (laidOut : LaidOut catalog offset text tokens) :
    ∀ token ∈ tokens, offset ≤ token.start ∧ token.start < token.stop ∧
      token.stop ≤ offset + byteLength text := by
  induction laidOut with
  | blank => exact fun _ member => nomatch member
  | @token offset text blanks ink rest tokens isBlank isInk later same ih =>
      have inked : 0 < byteLength ink :=
        Nat.pos_of_ne_zero fun zero => isInk.nonempty (Text.byteLength_eq_zero_iff.1 zero)
      intro token member
      rw [same]
      simp only [byteLength_append] at ih ⊢
      rcases List.mem_cons.1 member with rfl | later
      · rw [stop_ofText]
        simp only [ofText]
        omega
      · have := ih token later
        omega

/-- Every token ends before the later ones start. -/
def Rising (tokens : List Token) : Prop :=
  tokens.Pairwise fun earlier later => earlier.stop ≤ later.start

theorem LaidOut.rising (laidOut : LaidOut catalog offset text tokens) : Rising tokens := by
  induction laidOut with
  | blank => exact .nil
  | @token offset text blanks ink rest tokens isBlank isInk later same ih =>
      refine List.pairwise_cons.2 ⟨?_, ih⟩
      intro token member
      have := (later.within token member).1
      rw [stop_ofText]
      simp only [byteLength_append] at this
      omega

namespace Rising

variable {token opening closing : Token} {front back : List Token}

theorem left (rising : Rising (front ++ back)) : Rising front := (List.pairwise_append.1 rising).1

theorem right (rising : Rising (front ++ back)) : Rising back := (List.pairwise_append.1 rising).2.1

theorem tail (rising : Rising (token :: back)) : Rising back := (List.pairwise_cons.1 rising).2

theorem before (rising : Rising (front ++ token :: back)) :
    ∀ earlier ∈ front, earlier.stop ≤ token.start := fun earlier member =>
  (List.pairwise_append.1 rising).2.2 earlier member token List.mem_cons_self

theorem after (rising : Rising (token :: back)) : ∀ later ∈ back, token.stop ≤ later.start :=
  (List.pairwise_cons.1 rising).1

end Rising

section Cuts

theorem LaidOut.exists_front (laidOut : LaidOut catalog offset text tokens)
    (isPrefix : early <+: tokens) (nonempty : early ≠ []) :
    ∃ front back, text = front ++ back ∧ offset + byteLength front = stopOf early ∧
      LaidOut catalog offset front early := by
  induction laidOut generalizing early with
  | blank => exact absurd (List.prefix_nil.1 isPrefix) nonempty
  | @token offset text blanks ink rest tokens isBlank isInk later same ih =>
      obtain ⟨more, rfl, isEarly⟩ := (List.prefix_cons_iff.1 isPrefix).resolve_left nonempty
      by_cases last : more = []
      · subst last
        refine ⟨blanks ++ ink, rest, same, ?_, ?_⟩
        · simp [Nat.add_assoc]
        · exact .token isBlank isInk.alone (.blank isBlank_nil) (List.append_nil _).symm
      · obtain ⟨front, back, rfl, length, laidOut⟩ := ih isEarly last
        refine ⟨blanks ++ ink ++ front, back, by simp [same], ?_,
          .token isBlank isInk.left laidOut rfl⟩
        rw [stopOf_cons _ last, ← length, byteLength_append _ front]
        omega

theorem LaidOut.exists_back (laidOut : LaidOut catalog offset text tokens)
    (isSuffix : late <:+ tokens) (nonempty : late ≠ []) :
    ∃ front back, text = front ++ back ∧ offset + byteLength front = startOf late ∧
      LaidOut catalog (startOf late) back late := by
  induction laidOut with
  | blank => exact absurd (List.suffix_nil.1 isSuffix) nonempty
  | @token offset text blanks ink rest tokens isBlank isInk later same ih =>
      rcases List.suffix_cons_iff.1 isSuffix with rfl | isSuffix
      · refine ⟨blanks, ink ++ rest, by simp [same], rfl, ?_⟩
        rw [byteLength_append, ← Nat.add_assoc] at later
        exact .token isBlank_nil isInk later rfl
      · obtain ⟨front, back, rfl, length, laidOut⟩ := ih isSuffix
        refine ⟨blanks ++ ink ++ front, back, by simp [same], ?_, laidOut⟩
        rw [← length, byteLength_append _ front]
        omega

/-- A run of tokens lies in the part of the text from its first token through its last one. -/
theorem LaidOut.exists_part (laidOut : LaidOut catalog offset text tokens)
    (isRun : run <:+: tokens) (nonempty : run ≠ []) :
    ∃ front part back, text = front ++ (part ++ back) ∧
      offset + byteLength front = startOf run ∧ startOf run + byteLength part = stopOf run ∧
      LaidOut catalog (startOf run) part run := by
  obtain ⟨before, after, rfl⟩ := isRun
  have isSuffix : run ++ after <:+ before ++ run ++ after := by
    rw [List.append_assoc]
    exact List.suffix_append before _
  obtain ⟨front, tail, rfl, starts, laidOut⟩ := laidOut.exists_back isSuffix (by simp [nonempty])
  rw [startOf_append nonempty] at starts laidOut
  obtain ⟨part, back, rfl, stops, laidOut⟩ :=
    laidOut.exists_front (List.prefix_append run after) nonempty
  exact ⟨front, part, back, rfl, starts, stops, laidOut⟩

end Cuts

end Token

end InspectionFormula
