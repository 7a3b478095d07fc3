import InspectionFormula.Plan.Store

/-!
# Forms for interchange

A document is a tree of records and lists over texts and numbers.  A number is
kept as it is written, so that whole numbers, signs of zero and all digits stay
what they are.  Paths and spans are records, which may also be written as lists
of their fields in order.  An attribute is a record of one field, named for its
kind.
-/

namespace InspectionFormula

inductive Document where
  | null
  | bool (value : Bool)
  | number (spelling : String)
  | text (value : String)
  | list (items : List Document)
  | record (fields : List (String × Document))

namespace Document

def field? (document : Document) (name : String) : Option Document :=
  match document with
  | record fields => (fields.find? fun field => field.1 == name).map Prod.snd
  | _ => none

def text? : Document → Option String
  | text value => some value
  | _ => none

def list? : Document → Option (List Document)
  | list items => some items
  | _ => none

def ofInt (value : Int) : Document := number (toString value)

def ofNat (value : Nat) : Document := number (toString value)

/-- The digits of a spelling that has nothing but digits. -/
def digits? (spelling : List Char) : Option Nat :=
  if !spelling.isEmpty && spelling.all Char.isDigit then some (Nat.ofDigitChars 10 spelling 0)
  else none

/-- A number that is written as a whole one.  A negative zero is none. -/
def int? : Document → Option Int
  | number spelling =>
      match spelling.toList with
      | '-' :: digits => ((digits? digits).filter (· ≠ 0)).map fun size => -(size : Int)
      | digits => (digits? digits).map fun size => (size : Int)
  | _ => none

/-- A number that is written as a natural one. -/
def nat? : Document → Option Nat
  | number spelling => digits? spelling.toList
  | _ => none

def float? : Document → Option Binary64
  | number spelling => Binary64.readScaled? spelling
  | _ => none

/-- The fields of some names, all of them, or the items of a list of as many. -/
def fields? (names : List String) : Document → Option (List Document)
  | list items => if items.length = names.length then some items else none
  | record fields => names.mapM (record fields).field?
  | _ => none

def option? : Document → Option String
  | text name => some name
  | record [(name, null)] => some name
  | _ => none

end Document

namespace Segment

def encode (segment : Segment) : Document :=
  .record [
    ("kind", .text (match segment.kind with
      | .part => "Part"
      | .characteristic => "Characteristic")),
    ("name", .text segment.name)]

def decode? (document : Document) : Option Segment := do
  match ← document.fields? ["kind", "name"] with
  | [kind, name] =>
      let name ← name.text?
      match ← kind.option? with
      | "Part" => return ⟨.part, name⟩
      | "Characteristic" => return ⟨.characteristic, name⟩
      | _ => none
  | _ => none

end Segment

namespace Path

def encode (path : Path) : Document :=
  .record [("segments", .list (path.segments.map Segment.encode))]

def decode? (document : Document) : Option Path := do
  match ← document.fields? ["segments"] with
  | [segments] => return ⟨← (← segments.list?).mapM Segment.decode?⟩
  | _ => none

end Path

namespace Span

def encode (span : Span) : Document :=
  .record [("start", .ofNat span.start), ("length", .ofNat span.length)]

/-- An offset, which has 64 bits. -/
def decodeOffset? (document : Document) : Option Nat :=
  document.nat?.filter (· < Nat.pow 2 64)

def decode? (document : Document) : Option Span := do
  match ← document.fields? ["start", "length"] with
  | [start, length] => return ⟨← decodeOffset? start, ← decodeOffset? length⟩
  | _ => none

end Span

namespace Attribute

def encode : Attribute → Document
  | integer value => .record [("Integer", .ofInt value)]
  | float value => .record [("Float", if value.isFinite then .number value.text else .null)]
  | text value => .record [("Text", .text value)]
  | date value => .record [("Date", .text value.text)]

/-- A whole number of 64 bits with a sign. -/
def decodeInteger? (document : Document) : Option Int :=
  document.int?.filter fun value => -(Nat.pow 2 63 : Int) ≤ value ∧ value < (Nat.pow 2 63 : Int)

def decode? : Document → Option Attribute
  | .record [(kind, value)] =>
      match kind with
      | "Integer" => (decodeInteger? value).map integer
      | "Float" => value.float?.map float
      | "Text" => value.text?.map text
      | "Date" => (value.text?.bind Timestamp.read?).map date
      | _ => none
  | _ => none

end Attribute

end InspectionFormula
