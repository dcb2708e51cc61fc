import Overload.Document.Error

/-!
Decoders of documents. A document is a JSON value at hand, or a text. A text is not read as a whole
first: what counts is the first place in it that is malformed or does not say what is asked for
there, and nothing after that place is looked at.
-/
namespace Overload.Document

/-- Takes a part of a document off the front of a text and hands back the rest. -/
abbrev Reader (α : Type) := List Char → Except DocumentError (α × List Char)

/-- How to read values of a type. Of a text it is also given how many arrays and objects may yet be
nested in one another. -/
structure Decoder (α : Type) where
  ofJson : Json → Except DocumentError α
  ofText : Nat → Reader α

variable {α β : Type}

def plain (read : Json.Reader α) : Reader α := fun cs => (read cs).mapError .malformed

/-- The value at the front of a text, if it is a scalar. An array or object is not entered: it is
known by its bracket. -/
def readScalar : Reader Json := fun cs =>
  match Json.skipSpace cs with
  | '[' :: rest => .ok (.array [], rest)
  | '{' :: rest => .ok (.object [], rest)
  | rest => plain (Json.readValue 0) rest

/-- Stops at a value that is not of the wanted kind. -/
def refuse (wanted : String) : Reader α := fun cs => do
  let (found, _) ← readScalar cs
  .error (.wrongKind found wanted)

namespace Decoder

def scalar (read : Json → Except DocumentError α) : Decoder α where
  ofJson := read
  ofText _ cs := do
    let (value, rest) ← readScalar cs
    .ok (← read value, rest)

/-- A decoder that looks at a value only when all of it has been read. -/
def whole (read : Json → Except DocumentError α) : Decoder α where
  ofJson := read
  ofText depth cs := do
    let (value, rest) ← plain (Json.readValue depth) cs
    .ok (← read value, rest)

def refine (d : Decoder α) (f : α → Except DocumentError β) : Decoder β where
  ofJson value := do f (← d.ofJson value)
  ofText depth cs := do
    let (x, rest) ← d.ofText depth cs
    .ok (← f x, rest)

def map (f : α → β) (d : Decoder α) : Decoder β := d.refine fun x => .ok (f x)

/-- Reads a text that holds one value and, around it, nothing but space. -/
def parse (d : Decoder α) (text : String) : Except DocumentError α := do
  let (x, rest) ← d.ofText Json.maxDepth text.toList
  match Json.skipSpace rest with
  | [] => .ok x
  | _ => .error (.malformed .trailingCharacters)

def string : Decoder String := scalar fun
  | .string s => .ok s
  | value => .error (.wrongKind value "a string")

def bool : Decoder Bool := scalar fun
  | .bool b => .ok b
  | value => .error (.wrongKind value "a boolean")

def count : Decoder Nat := scalar fun
  | .integer (.ofNat n) => .ok n
  | .integer n => .error (.negativeCount n)
  | value => .error (.wrongKind value "usize")

def unit : Decoder Unit := scalar fun
  | .null => .ok ()
  | value => .error (.wrongKind value "unit")

def any : Decoder Json := whole fun value => .ok value.canonical

def readTable : Json → Except DocumentError Json.Table
  | .object members => .ok (.ofMembers members)
  | value => .error (.wrongKind value "a map")

/-- Any values by keys; of values with one key the last counts. -/
def table : Decoder Json.Table where
  ofJson := readTable
  ofText depth cs :=
    match Json.skipSpace cs with
    | '{' :: rest => (whole readTable).ofText depth ('{' :: rest)
    | rest => refuse "a map" rest

/-- Null stands for no value. -/
def option (d : Decoder α) : Decoder (Option α) where
  ofJson
    | .null => .ok none
    | value => do return some (← d.ofJson value)
  ofText depth cs :=
    match Json.skipSpace cs with
    | 'n' :: rest => do
        let (_, rest) ← plain (Json.readWord .null ['u', 'l', 'l']) rest
        .ok (none, rest)
    | rest => (d.map some).ofText depth rest

/-- The items of an array up to the closing bracket, at most `bound`. -/
def readItems (item : Reader α) : Nat → Bool → Reader (List α)
  | 0, _, _ => .error (.malformed .endOfList)
  | bound + 1, first, cs => do
      let (more, rest) ← plain (Json.nextItem first) cs
      if more then
        let (x, rest) ← item rest
        let (xs, rest) ← readItems item bound false rest
        .ok (x :: xs, rest)
      else .ok ([], rest)

def list (d : Decoder α) : Decoder (List α) where
  ofJson
    | .array items => items.mapM d.ofJson
    | value => .error (.wrongKind value "a sequence")
  ofText depth cs :=
    match depth, Json.skipSpace cs with
    | 0, '[' :: _ => .error (.malformed .tooDeep)
    | depth + 1, '[' :: rest => readItems (d.ofText depth) (rest.length + 1) true rest
    | _, rest => refuse "a sequence" rest

end Decoder

end Overload.Document
