import Overload.Document.Record
import Overload.Operation.Basic

/-!
Documents of options.
-/
namespace Overload

open Document

namespace ArgumentOrder

def text : ArgumentOrder → String
  | firstOccurrence => "firstOccurrence"
  | alphabetical => "alphabetical"

def all : List ArgumentOrder := [firstOccurrence, alphabetical]

def named (text : String) : Except DocumentError ArgumentOrder :=
  match all.find? (·.text == text) with
  | some order => .ok order
  | none => .error (.unknownChoice text (all.map ArgumentOrder.text))

/-- The choice as a string, or as the key of an object that has null under it and nothing else. -/
def ofJson : Json → Except DocumentError ArgumentOrder
  | .string text => named text
  | .object [(key, value)] => do
      let order ← named key
      let _ ← Decoder.unit.ofJson value
      .ok order
  | .object _ => .error .notOneChoice
  | value => .error (.wrongKind value "string or map")

/-- What a text has in place of a choice is not told apart, and neither is an object without keys or
what follows the null. -/
def ofText (depth : Nat) : Document.Reader ArgumentOrder := fun cs =>
  match depth, Json.skipSpace cs with
  | _, [] => .error (.malformed .endOfValue)
  | _, '"' :: rest => (Decoder.string.refine named).ofText depth ('"' :: rest)
  | 0, '{' :: _ => .error (.malformed .tooDeep)
  | depth + 1, '{' :: rest => do
      let (key, rest) ← plain (Json.nextKey true) rest
      match key with
      | none => .error (.malformed .expectedValue)
      | some key =>
          let order ← named key
          let (_, rest) ← plain Json.readColon rest
          let (_, rest) ← Decoder.unit.ofText depth rest
          match Json.skipSpace rest with
          | '}' :: rest => .ok (order, rest)
          | [] => .error (.malformed .endOfObject)
          | _ => .error (.malformed .expectedValue)
  | _, _ => .error (.malformed .expectedValue)

def decoder : Decoder ArgumentOrder := { ofJson, ofText }

def toJson (order : ArgumentOrder) : Json := .string order.text

end ArgumentOrder

namespace Options

def layout : Layout Options where
  name := "BuilderOptions"
  blank := {}
  fields :=
    [.optional "maxJoinDepth" .count fun maxJoinDepth options => { options with maxJoinDepth },
     .optional "argumentOrder" ArgumentOrder.decoder fun argumentOrder options =>
      { options with argumentOrder }]

def decoder : Decoder Options := layout.decoder

def toJson (options : Options) : Json :=
  .object
    [("maxJoinDepth", .integer options.maxJoinDepth),
     ("argumentOrder", options.argumentOrder.toJson)]

end Options

end Overload
