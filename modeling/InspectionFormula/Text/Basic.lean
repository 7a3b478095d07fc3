/-!
# Texts

The reserved characters of a formula stand for themselves: operators, brackets,
separators and quotes.  White space is the Unicode property of that name, and
trimming takes it off both ends of a text.

Places in a text are counted in the bytes of its UTF-8 form.  A place inside a
character, or beyond the end, cuts nothing out.  A span is a stretch of a text
between two places.
-/

namespace InspectionFormula

namespace Text

def reservedCharacters : List Char :=
  ['+', '-', '*', '/', '(', ')', '{', '}', ';', ',', '"', '\\']

def isReserved (character : Char) : Bool := reservedCharacters.contains character

def isWhiteSpace (character : Char) : Bool :=
  let code := character.toNat
  (0x9 ≤ code && code ≤ 0xD) || code == 0x20 || code == 0x85 || code == 0xA0 || code == 0x1680 ||
    (0x2000 ≤ code && code ≤ 0x200A) || code == 0x2028 || code == 0x2029 || code == 0x202F ||
    code == 0x205F || code == 0x3000

def trimStart (text : List Char) : List Char := text.dropWhile isWhiteSpace

def trimEnd (text : List Char) : List Char := (text.reverse.dropWhile isWhiteSpace).reverse

def trim (text : List Char) : List Char := trimEnd (trimStart text)

@[simp] theorem trim_nil : trim [] = [] := rfl

def byteLength (text : List Char) : Nat :=
  text.foldr (fun character length => character.utf8Size + length) 0

@[simp] theorem byteLength_nil : byteLength [] = 0 := rfl

@[simp] theorem byteLength_cons (character : Char) (rest : List Char) :
    byteLength (character :: rest) = character.utf8Size + byteLength rest := rfl

@[simp] theorem byteLength_append (front back : List Char) :
    byteLength (front ++ back) = byteLength front + byteLength back := by
  induction front with
  | nil => simp
  | cons character rest ih => simp [ih, Nat.add_assoc]

/-- The text before and after its first `count` bytes, if they end a character. -/
def splitBytes? : Nat → List Char → Option (List Char × List Char)
  | 0, text => some ([], text)
  | _ + 1, [] => none
  | count + 1, character :: rest =>
      if character.utf8Size ≤ count + 1 then
        (splitBytes? (count + 1 - character.utf8Size) rest).map fun (front, back) =>
          (character :: front, back)
      else none

@[simp] theorem splitBytes?_zero (text : List Char) : splitBytes? 0 text = some ([], text) := by
  cases text <;> rfl

/-- Cutting a text where two parts meet gives the parts. -/
theorem splitBytes?_append (front back : List Char) :
    splitBytes? (byteLength front) (front ++ back) = some (front, back) := by
  induction front with
  | nil => simp
  | cons character rest ih =>
      have positive := character.utf8Size_pos
      obtain ⟨count, size⟩ : ∃ count, byteLength (character :: rest) = count + 1 :=
        ⟨character.utf8Size + byteLength rest - 1, by simp; omega⟩
      have remaining : count + 1 - character.utf8Size = byteLength rest := by
        simp at size
        omega
      rw [List.cons_append, size, splitBytes?, if_pos (by simp at size; omega), remaining, ih]
      rfl

def slice? (text : List Char) (start stop : Nat) : Option (List Char) :=
  if start ≤ stop then do
    let (_, tail) ← splitBytes? start text
    let (part, _) ← splitBytes? (stop - start) tail
    return part
  else none

theorem slice?_append (front part back : List Char) :
    slice? (front ++ (part ++ back)) (byteLength front) (byteLength front + byteLength part) =
      some part := by
  simp [slice?, splitBytes?_append]

end Text

/-- A stretch of a text, in bytes. -/
structure Span where
  start : Nat
  length : Nat
deriving DecidableEq

namespace Span

def stop (span : Span) : Nat := span.start + span.length

/-- From the start of one span through the end of the later of the two. -/
def through (first last : Span) : Span := ⟨first.start, max first.stop last.stop - first.start⟩

/-- The text that a span covers, nothing if it does not fit. -/
def cut (span : Span) (source : String) : String :=
  String.ofList ((Text.slice? source.toList span.start span.stop).getD [])

@[simp] theorem start_through (first last : Span) : (first.through last).start = first.start := rfl

@[simp] theorem stop_through (first last : Span) :
    (first.through last).stop = max first.stop last.stop := by
  simp only [through, stop]
  omega

end Span

end InspectionFormula
