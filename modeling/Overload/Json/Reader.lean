import Overload.Json.Basic
import Overload.Text.Blank

/-!
Reading JSON texts. The members of an object are kept as written; `Json.canonical` sorts them.
-/
namespace Overload.Json

inductive SyntaxError where
  | endOfList
  | endOfObject
  | endOfString
  | endOfValue
  | expectedColon
  | expectedCommaOrBracket
  | expectedCommaOrBrace
  | expectedIdent
  | expectedValue
  | invalidEscape
  | invalidNumber
  | numberOutOfRange
  | controlCharacter
  | keyMustBeString
  | loneSurrogate
  | trailingComma
  | trailingCharacters
  | unfinishedPair
  | tooDeep
deriving DecidableEq

namespace SyntaxError

def message : SyntaxError → String
  | endOfList => "EOF while parsing a list"
  | endOfObject => "EOF while parsing an object"
  | endOfString => "EOF while parsing a string"
  | endOfValue => "EOF while parsing a value"
  | expectedColon => "expected `:`"
  | expectedCommaOrBracket => "expected `,` or `]`"
  | expectedCommaOrBrace => "expected `,` or `\x7d`"
  | expectedIdent => "expected ident"
  | expectedValue => "expected value"
  | invalidEscape => "invalid escape"
  | invalidNumber => "invalid number"
  | numberOutOfRange => "number out of range"
  | controlCharacter => "control character (\\u0000-\\u001F) found while parsing a string"
  | keyMustBeString => "key must be a string"
  | loneSurrogate => "lone leading surrogate in hex escape"
  | trailingComma => "trailing comma"
  | trailingCharacters => "trailing characters"
  | unfinishedPair => "unexpected end of hex escape"
  | tooDeep => "recursion limit exceeded"

end SyntaxError

/-- Takes a value off the front of a text and hands back the rest. -/
abbrev Reader (α : Type) := List Char → Except SyntaxError (α × List Char)

def isSpace (c : Char) : Bool := c == ' ' || c == '\n' || c == '\t' || c == '\r'

def skipSpace : List Char → List Char := List.dropWhile isSpace

/-- The rest of a word whose first character has been read. -/
def readWord (value : Json) : List Char → Reader Json
  | [], rest => .ok (value, rest)
  | _ :: _, [] => .error .endOfValue
  | expected :: word, c :: rest =>
      if c = expected then readWord value word rest else .error .expectedIdent

def digitValue (c : Char) : Nat := c.toNat - '0'.toNat

def natOfDigits (digits : List Char) : Nat :=
  digits.foldl (fun n c => 10 * n + digitValue c) 0

def readDigits : Reader (List Char) := fun cs =>
  match cs.takeWhile Char.isDigit, cs.dropWhile Char.isDigit with
  | [], [] => .error .endOfValue
  | [], _ => .error .invalidNumber
  | digits, rest => .ok (digits, rest)

/-- The integral part: a zero stands alone. -/
def readWhole : Reader (List Char) := fun cs => do
  let (digits, rest) ← readDigits cs
  match digits with
  | '0' :: _ :: _ => .error .invalidNumber
  | _ => .ok (digits, rest)

def readFraction : Reader (Option (List Char))
  | '.' :: rest => do
      let (digits, rest) ← readDigits rest
      .ok (some digits, rest)
  | rest => .ok (none, rest)

def readSign : List Char → Bool × List Char
  | '-' :: rest => (true, rest)
  | '+' :: rest => (false, rest)
  | rest => (false, rest)

def readExponent : Reader (Option Int)
  | c :: rest =>
      if c = 'e' ∨ c = 'E' then do
        let (negative, rest) := readSign rest
        let (digits, rest) ← readDigits rest
        let size : Int := natOfDigits digits
        .ok (some (if negative then -size else size), rest)
      else .ok (none, c :: rest)
  | [] => .ok (none, [])

def signed (negative : Bool) (n : Nat) : Int := if negative then -n else n

/-- Integers that fit 64 bits, with or without a sign, stay integers; minus zero does not. -/
def staysInteger (negative : Bool) (n : Nat) : Bool :=
  if negative then 0 < n && n ≤ Nat.pow 2 63 else n < Nat.pow 2 64

/-- The number with the given parts. A decimal is rounded once and exactly. A reader that scales the
digits by powers of ten in binary arithmetic rounds more than once: it reads some decimals, such as
`51.248178375505404`, as a neighbour of the nearest number, and refuses the greatest number when
that is written as `1.7976931348623158e308`. That reals read back from what is printed of them
(`readChars_render`) is therefore said of exact rounding only. -/
def number (negative : Bool) (whole : List Char) (fraction : Option (List Char))
    (exponent : Option Int) : Except SyntaxError Json :=
  let digits := whole ++ fraction.getD []
  if fraction.isNone && exponent.isNone && staysInteger negative (natOfDigits digits) then
    .ok (.integer (signed negative (natOfDigits digits)))
  else
    match Binary64.nearest? negative (natOfDigits digits)
      (exponent.getD 0 - (fraction.getD []).length) with
    | some x => .ok (.real x)
    | none => .error .numberOutOfRange

def readNumber (negative : Bool) : Reader Json := fun cs => do
  let (whole, rest) ← readWhole cs
  let (fraction, rest) ← readFraction rest
  let (exponent, rest) ← readExponent rest
  .ok (← number negative whole fraction exponent, rest)

def hexValue? (c : Char) : Option Nat :=
  if '0' ≤ c ∧ c ≤ '9' then some (c.toNat - '0'.toNat)
  else if 'a' ≤ c ∧ c ≤ 'f' then some (c.toNat - 'a'.toNat + 10)
  else if 'A' ≤ c ∧ c ≤ 'F' then some (c.toNat - 'A'.toNat + 10)
  else none

def hexUnit? (a b c d : Char) : Option Nat := do
  return (((← hexValue? a) * 16 + (← hexValue? b)) * 16 + (← hexValue? c)) * 16 + (← hexValue? d)

def isLeading (unit : Nat) : Bool := 0xD800 ≤ unit && unit ≤ 0xDBFF

def isTrailing (unit : Nat) : Bool := 0xDC00 ≤ unit && unit ≤ 0xDFFF

def pairedChar (leading trailing : Nat) : Char :=
  Char.ofNat (0x10000 + (leading - 0xD800) * 0x400 + (trailing - 0xDC00))

def escapedChar? : Char → Option Char
  | '"' => some '"'
  | '\\' => some '\\'
  | '/' => some '/'
  | 'b' => some '\x08'
  | 'f' => some '\x0c'
  | 'n' => some '\n'
  | 'r' => some '\r'
  | 't' => some '\t'
  | _ => none

/-- Why there is no hexadecimal escape where fewer than four digits are left. -/
def shortEscape (rest : List Char) : SyntaxError :=
  if Text.utf8Length rest < 4 then .endOfString else .invalidEscape

/-- What a leading surrogate lacks. -/
def unpairedError : List Char → SyntaxError
  | [] => .endOfString
  | ['\\'] => .endOfString
  | '\\' :: 'u' :: rest => shortEscape rest
  | _ => .unfinishedPair

def consChar (c : Char) :
    Except SyntaxError (List Char × List Char) → Except SyntaxError (List Char × List Char)
  | .ok (cs, rest) => .ok (c :: cs, rest)
  | .error e => .error e

/-- The characters of a string whose opening quote has been read. A character beyond the basic
plane is escaped as a pair of surrogates; a surrogate without its pair stands for nothing. -/
def readString : Reader (List Char)
  | [] => .error .endOfString
  | '"' :: rest => .ok ([], rest)
  | '\\' :: 'u' :: a :: b :: c :: d :: rest =>
      match hexUnit? a b c d with
      | none => .error .invalidEscape
      | some unit =>
          if isTrailing unit then .error .loneSurrogate
          else if isLeading unit then
            match rest with
            | '\\' :: 'u' :: e :: f :: g :: h :: rest =>
                match hexUnit? e f g h with
                | none => .error .invalidEscape
                | some trailing =>
                    if isTrailing trailing then
                      consChar (pairedChar unit trailing) (readString rest)
                    else .error .loneSurrogate
            | _ => .error (unpairedError rest)
          else consChar (Char.ofNat unit) (readString rest)
  | '\\' :: 'u' :: rest => .error (shortEscape rest)
  | '\\' :: c :: rest =>
      match escapedChar? c with
      | some x => consChar x (readString rest)
      | none => .error .invalidEscape
  | ['\\'] => .error .endOfString
  | c :: rest =>
      if c.toNat < 0x20 then .error .controlCharacter else consChar c (readString rest)

/-- Whether an array has a further item, which then stands at the front. Its first item follows the
bracket, and every other one a comma. -/
def nextItem (first : Bool) : Reader Bool := fun cs =>
  match first, skipSpace cs with
  | _, [] => .error .endOfList
  | _, ']' :: rest => .ok (false, rest)
  | true, rest => .ok (true, rest)
  | false, ',' :: rest =>
      match skipSpace rest with
      | [] => .error .endOfValue
      | ']' :: _ => .error .trailingComma
      | rest => .ok (true, rest)
  | false, _ => .error .expectedCommaOrBracket

/-- Here and for members, the reader of values is an argument, and the number bounds how many of
them are left: it is the length of the text at first. -/
def readItems (item : Reader Json) : Nat → Bool → Reader (List Json)
  | 0, _, _ => .error .endOfList
  | bound + 1, first, cs => do
      let (more, rest) ← nextItem first cs
      if more then
        let (x, rest) ← item rest
        let (xs, rest) ← readItems item bound false rest
        .ok (x :: xs, rest)
      else .ok ([], rest)

/-- A key whose opening quote has been read. -/
def readKey : Reader (Option String) := fun cs => do
  let (key, rest) ← readString cs
  .ok (some (String.ofList key), rest)

/-- The key of the next member of an object, if there is a further one. -/
def nextKey (first : Bool) : Reader (Option String) := fun cs =>
  match first, skipSpace cs with
  | _, [] => .error .endOfObject
  | _, '}' :: rest => .ok (none, rest)
  | true, '"' :: rest => readKey rest
  | true, _ => .error .keyMustBeString
  | false, ',' :: rest =>
      match skipSpace rest with
      | [] => .error .endOfValue
      | '}' :: _ => .error .trailingComma
      | '"' :: rest => readKey rest
      | _ => .error .keyMustBeString
  | false, _ => .error .expectedCommaOrBrace

def readColon : Reader Unit := fun cs =>
  match skipSpace cs with
  | [] => .error .endOfObject
  | ':' :: rest => .ok ((), rest)
  | _ => .error .expectedColon

def readMembers (value : Reader Json) : Nat → Bool → Reader (List (String × Json))
  | 0, _, _ => .error .endOfObject
  | bound + 1, first, cs => do
      let (key, rest) ← nextKey first cs
      match key with
      | none => .ok ([], rest)
      | some key =>
          let (_, rest) ← readColon rest
          let (v, rest) ← value rest
          let (members, rest) ← readMembers value bound false rest
          .ok ((key, v) :: members, rest)

/-- A value with at most `depth` arrays and objects nested in one another. -/
def readValue (depth : Nat) : Reader Json := fun cs =>
  match skipSpace cs with
  | [] => .error .endOfValue
  | 'n' :: rest => readWord .null ['u', 'l', 'l'] rest
  | 't' :: rest => readWord (.bool true) ['r', 'u', 'e'] rest
  | 'f' :: rest => readWord (.bool false) ['a', 'l', 's', 'e'] rest
  | '-' :: rest => readNumber true rest
  | '"' :: rest => do
      let (s, rest) ← readString rest
      .ok (.string (String.ofList s), rest)
  | '[' :: rest =>
      match depth with
      | 0 => .error .tooDeep
      | depth + 1 => do
          let (items, rest) ← readItems (readValue depth) (rest.length + 1) true rest
          .ok (.array items, rest)
  | '{' :: rest =>
      match depth with
      | 0 => .error .tooDeep
      | depth + 1 => do
          let (members, rest) ←
            readMembers (readValue depth) (rest.length + 1) true rest
          .ok (.object members, rest)
  | c :: rest => if c.isDigit then readNumber false (c :: rest) else .error .expectedValue

def maxDepth : Nat := 127

def readChars (cs : List Char) : Except SyntaxError Json := do
  let (value, rest) ← readValue maxDepth cs
  match skipSpace rest with
  | [] => .ok value
  | _ => .error .trailingCharacters

def read (text : String) : Except SyntaxError Json := readChars text.toList

end Overload.Json
