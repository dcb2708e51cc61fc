import Overload.Json.Reader
import Overload.Name
import Overload.Text.Blank
import Overload.TypeExpr.Basic

/-!
Reading the text of a type.

    type       := annotation* ( "?" | name ( "<" type ( "," type )* ">" )? )
    annotation := "@" name ( "(" ( value ( "," value )* )? ")" )?
    value      := ( name | json string ) "=" json

White space may stand between any two of these parts. A union cannot be written. A reader that
stops hands back the text from the place where it stopped, which gives the position.
-/
namespace Overload.TypeExpr

inductive Fault where
  | expectedName (found : Option Char)
  | expectedEquals (key : String)
  | unterminatedKey
  | invalidKey (cause : Json.SyntaxError)
  | expectedValue (found : Option Char)
  | invalidValue (text : String) (cause : Json.SyntaxError)
  | unterminatedValues
  | expectedCommaOrAngle (found : Char)
  | unterminatedParams
  | unexpected (found : Char)
deriving DecidableEq

def foundText : Option Char → String
  | some c => s!"found `{c}`"
  | none => "found end of input"

namespace Fault

def message : Fault → String
  | expectedName found => s!"expected a type name, {foundText found}"
  | expectedEquals key => s!"expected `=` after annotation key `{key}`"
  | unterminatedKey => "unterminated annotation key"
  | invalidKey cause => s!"invalid annotation key: {cause.message}"
  | expectedValue found => s!"expected an annotation value, {foundText found}"
  | invalidValue text cause => s!"invalid annotation value `{text}`: {cause.message}"
  | unterminatedValues => "unterminated annotation value list"
  | expectedCommaOrAngle found => s!"expected `,` or `>`, found `{found}`"
  | unterminatedParams => "unterminated type parameter list"
  | unexpected found => s!"unexpected `{found}` after type"

end Fault

structure Stop where
  rest : List Char
  fault : Fault

/-- A text that is not a type. The position counts bytes in UTF-8. -/
structure SyntaxError where
  input : String
  position : Nat
  fault : Fault
deriving DecidableEq

def SyntaxError.message (e : SyntaxError) : String :=
  s!"invalid type `{e.input}` at offset {e.position}: {e.fault.message}"

abbrev Reader (α : Type) := List Char → Except Stop (α × List Char)

def readName : Reader String := fun cs =>
  match Text.skipBlanks cs with
  | [] => .error ⟨[], .expectedName none⟩
  | c :: rest =>
      if startsName c then
        .ok (String.ofList (c :: rest.takeWhile continuesName), rest.dropWhile continuesName)
      else .error ⟨c :: rest, .expectedName (some c)⟩

/-- Cuts after the first quote that is not escaped. -/
def cutQuoted (escaped : Bool) : List Char → Option (List Char × List Char)
  | [] => none
  | c :: rest =>
      if c = '"' ∧ !escaped then some ([c], rest)
      else (cutQuoted (c == '\\' && !escaped) rest).map fun (quoted, rest) => (c :: quoted, rest)

def readQuotedKey : Reader String := fun cs =>
  match cutQuoted false cs with
  | none => .error ⟨'"' :: cs, .unterminatedKey⟩
  | some (quoted, rest) =>
      match Json.readString quoted with
      | .ok (key, _) => .ok (String.ofList key, rest)
      | .error cause => .error ⟨'"' :: cs, .invalidKey cause⟩

def readKey : Reader String := fun cs =>
  match Text.skipBlanks cs with
  | '"' :: rest => readQuotedKey rest
  | rest => readName rest

/-- A place in a value: outside of its strings, inside of one, or after a backslash there, under so
many open brackets. -/
inductive Place where
  | outside (depth : Nat)
  | inside (depth : Nat)
  | escaped (depth : Nat)

/-- The place after a character, or none if the value ends before it. -/
def Place.next? : Place → Char → Option Place
  | escaped depth, _ => some (inside depth)
  | inside depth, '\\' => some (escaped depth)
  | inside depth, '"' => some (outside depth)
  | inside depth, _ => some (inside depth)
  | outside depth, '"' => some (inside depth)
  | outside depth, '[' | outside depth, '{' => some (outside (depth + 1))
  | outside depth, ']' | outside depth, '}' => some (outside (depth - 1))
  | outside 0, ',' | outside 0, ')' => none
  | outside depth, _ => some (outside depth)

/-- Cuts before the first comma or closing parenthesis outside of all strings and brackets. -/
def cutValue (place : Place) : List Char → List Char × List Char
  | [] => ([], [])
  | c :: rest =>
      match place.next? c with
      | none => ([], c :: rest)
      | some place => (cutValue place rest).map (c :: ·) id

/-- A value is cut out before it is read, so that what may follow it is left alone. -/
def readAnnotationValue : Reader Json := fun cs =>
  let start := Text.skipBlanks cs
  let (value, rest) := cutValue (.outside 0) start
  match Text.trimEnd value with
  | [] => .error ⟨rest, .expectedValue rest.head?⟩
  | text =>
      match Json.readChars text with
      | .ok value => .ok (value, rest)
      | .error cause => .error ⟨start, .invalidValue (String.ofList text) cause⟩

def readEntry : Reader (String × Json) := fun cs => do
  let (key, rest) ← readKey cs
  match Text.skipBlanks rest with
  | '=' :: rest => do
      let (value, rest) ← readAnnotationValue rest
      .ok ((key, value), rest)
  | rest => .error ⟨rest, .expectedEquals key⟩

def readEntries : Nat → Reader (List (String × Json))
  | 0, cs => .error ⟨cs, .unterminatedValues⟩
  | bound + 1, cs => do
      let (entry, rest) ← readEntry cs
      match rest with
      | ',' :: rest => do
          let (entries, rest) ← readEntries bound rest
          .ok (entry :: entries, rest)
      | ')' :: rest => .ok ([entry], rest)
      | rest => .error ⟨rest, .unterminatedValues⟩

/-- An annotation whose `@` has been read. Of entries with one key the last counts. -/
def readAnnotationBody : Reader Annotation := fun cs => do
  let (name, rest) ← readName cs
  match Text.skipBlanks rest with
  | '(' :: rest =>
      match Text.skipBlanks rest with
      | ')' :: rest => .ok ({ name }, rest)
      | rest => do
          let (entries, rest) ← readEntries (rest.length + 1) rest
          .ok (⟨name, .ofMembers entries⟩, rest)
  | rest => .ok ({ name }, rest)

def readAnnotations : Nat → Reader (List Annotation)
  | 0, cs => .ok ([], cs)
  | bound + 1, cs =>
      match Text.skipBlanks cs with
      | '@' :: rest => do
          let (a, rest) ← readAnnotationBody rest
          let (as, rest) ← readAnnotations bound rest
          .ok (a :: as, rest)
      | rest => .ok ([], rest)

def readParams (param : Reader TypeExpr) : Nat → Reader (List TypeExpr)
  | 0, cs => .error ⟨cs, .unterminatedParams⟩
  | bound + 1, cs => do
      let (t, rest) ← param cs
      match Text.skipBlanks rest with
      | ',' :: rest => do
          let (ts, rest) ← readParams param bound rest
          .ok (t :: ts, rest)
      | '>' :: rest => .ok ([t], rest)
      | [] => .error ⟨[], .unterminatedParams⟩
      | c :: rest => .error ⟨c :: rest, .expectedCommaOrAngle c⟩

def readType : Nat → Reader TypeExpr
  | 0, cs => .error ⟨cs, .unterminatedParams⟩
  | depth + 1, cs => do
      let (as, rest) ← readAnnotations (cs.length + 1) cs
      match Text.skipBlanks rest with
      | '?' :: rest => .ok ((wildcard []).annotate as, rest)
      | rest => do
          let (name, rest) ← readName rest
          match Text.skipBlanks rest with
          | '<' :: rest => do
              let (params, rest) ← readParams (readType depth) (rest.length + 1) rest
              .ok ((named [] name params).annotate as, rest)
          | rest => .ok ((named [] name []).annotate as, rest)

/-- A text that holds one type and, around it, nothing but white space. Every level of nesting takes
a bracket, so the length of the text bounds the depth. -/
def readText (cs : List Char) : Except Stop TypeExpr := do
  let (t, rest) ← readType (cs.length + 1) cs
  match Text.skipBlanks rest with
  | [] => .ok t
  | c :: rest => .error ⟨c :: rest, .unexpected c⟩

def parse (text : String) : Except SyntaxError TypeExpr :=
  (readText text.toList).mapError fun stop =>
    { input := text
      position := Text.utf8Length text.toList - Text.utf8Length stop.rest
      fault := stop.fault }

end Overload.TypeExpr
