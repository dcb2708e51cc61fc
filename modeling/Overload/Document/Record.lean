import Overload.Document.Decoder

/-!
Records in documents. A record is an object with a value for each of its fields, or an array of the
values in the order of the fields. Fields are read in the order in which they come, and the first
wrong one counts; whether a field is missing is only asked at the end.
-/
namespace Overload.Document

/-- A field of a record: its key, and how its value changes the record. -/
structure Field (α : Type) where
  key : String
  required : Bool
  change : Decoder (α → α)

variable {α β : Type}

namespace Field

def needed (key : String) (d : Decoder β) (set : β → α → α) : Field α :=
  { key, required := true, change := d.map set }

def optional (key : String) (d : Decoder β) (set : β → α → α) : Field α :=
  { key, required := false, change := d.map set }

end Field

/-- A kind of record. The blank is what a record is before any field is read. -/
structure Layout (α : Type) where
  name : String
  blank : α
  fields : List (Field α)

namespace Layout

/-- The field with a key that is met after others. -/
def field (l : Layout α) (seen : List String) (key : String) : Except DocumentError (Field α) :=
  match l.fields.find? (·.key == key) with
  | none => .error (.unknownField key (l.fields.map (·.key)))
  | some field => if key ∈ seen then .error (.duplicateField key) else .ok field

/-- The record, unless a required field is not among those seen. -/
def ofSeen (l : Layout α) (seen : List String) (record : α) : Except DocumentError α :=
  match l.fields.find? fun field => field.required && !seen.contains field.key with
  | some field => .error (.missingField field.key)
  | none => .ok record

/-- The record, unless a required field is among the last ones, which have been left out. -/
def ofLeft (l : Layout α) (left : List (Field α)) (record : α) : Except DocumentError α :=
  match left.findIdx? (·.required) with
  | some i =>
      let index := l.fields.length - left.length + i
      .error (.tooFewFields index l.name l.fields.length)
  | none => .ok record

def readMembers (l : Layout α) (seen : List String) (record : α) :
    List (String × Json) → Except DocumentError α
  | [] => l.ofSeen seen record
  | (key, value) :: members => do
      let field ← l.field seen key
      let change ← field.change.ofJson value
      l.readMembers (key :: seen) (change record) members

/-- Reads items, each as the field at its place, and hands back the fields and items left over. -/
def readItems (record : α) :
    List (Field α) → List Json → Except DocumentError (α × List (Field α) × List Json)
  | field :: fields, item :: items => do
      let change ← field.change.ofJson item
      readItems (change record) fields items
  | fields, items => .ok (record, fields, items)

def ofJson (l : Layout α) : Json → Except DocumentError α
  | .object members => l.readMembers [] l.blank members
  | .array items => do
      let (record, left, extra) ← readItems l.blank l.fields items
      if extra.isEmpty then l.ofLeft left record
      else .error (.tooManyFields items.length)
  | value => .error (.wrongKind value s!"struct {l.name}")

def scanMembers (l : Layout α) (depth : Nat) : Nat → Bool → List String → α → Reader α
  | 0, _, _, _, _ => .error (.malformed .endOfObject)
  | bound + 1, first, seen, record, cs => do
      let (key, rest) ← plain (Json.nextKey first) cs
      match key with
      | none => .ok (← l.ofSeen seen record, rest)
      | some key =>
          let field ← l.field seen key
          let (_, rest) ← plain Json.readColon rest
          let (change, rest) ← field.change.ofText depth rest
          l.scanMembers depth bound false (key :: seen) (change record) rest

/-- The end of an array that has an item for every field. -/
def closeArray : Json.Reader Unit := fun cs =>
  match Json.skipSpace cs with
  | [] => .error .endOfList
  | ']' :: rest => .ok ((), rest)
  | ',' :: rest =>
      match Json.skipSpace rest with
      | ']' :: _ => .error .trailingComma
      | _ => .error .trailingCharacters
  | _ => .error .trailingCharacters

/-- Reads items up to the closing bracket, each as the field at its place. -/
def scanItems (l : Layout α) (depth : Nat) : List (Field α) → Bool → α → Reader α
  | [], _, record, cs => do
      let (_, rest) ← plain closeArray cs
      .ok (record, rest)
  | field :: fields, first, record, cs => do
      let (more, rest) ← plain (Json.nextItem first) cs
      if more then
        let (change, rest) ← field.change.ofText depth rest
        l.scanItems depth fields false (change record) rest
      else .ok (← l.ofLeft (field :: fields) record, rest)

def ofText (l : Layout α) (depth : Nat) : Reader α := fun cs =>
  match depth, Json.skipSpace cs with
  | 0, '[' :: _ | 0, '{' :: _ => .error (.malformed .tooDeep)
  | depth + 1, '[' :: rest => l.scanItems depth l.fields true l.blank rest
  | depth + 1, '{' :: rest => l.scanMembers depth (rest.length + 1) true [] l.blank rest
  | _, rest => refuse s!"struct {l.name}" rest

def decoder (l : Layout α) : Decoder α where
  ofJson := l.ofJson
  ofText := l.ofText

end Layout

end Overload.Document
