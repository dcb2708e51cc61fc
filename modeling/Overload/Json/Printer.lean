import Overload.Binary64.Shortest
import Overload.Json.Basic

/-!
Writing JSON values: in one line without spaces, or indented by two spaces a level.
-/
namespace Overload.Json

def natDigits (n : Nat) : List Char := Nat.toDigits 10 n

def intText : Int → List Char
  | .ofNat n => natDigits n
  | .negSucc n => '-' :: natDigits (n + 1)

/-- A decimal is written positionally with a point while its leading digit stands for `10 ^ -5` to
`10 ^ 15`, and otherwise with one digit before the point and a signed exponent. Of its digits,
`point` stand before the point. -/
def decimalText (d : Decimal) : List Char :=
  let digits := natDigits d.digits
  let zeros (n : Int) : List Char := List.replicate n.toNat '0'
  let point : Int := digits.length + d.exponent
  if -4 ≤ point ∧ point ≤ 16 then
    if point ≤ 0 then '0' :: '.' :: zeros (-point) ++ digits
    else if 0 ≤ d.exponent then digits ++ zeros d.exponent ++ ['.', '0']
    else digits.take point.toNat ++ '.' :: digits.drop point.toNat
  else
    let fraction := match digits.drop 1 with
      | [] => []
      | rest => '.' :: rest
    let exponent := intText (point - 1)
    digits.take 1 ++ fraction ++ 'e' :: (if 0 < point then '+' :: exponent else exponent)

/-- A number is written with the fewest digits that read back, and so that it stays a real. -/
def realText (x : Binary64) : List Char :=
  let magnitude := if x.significand = 0 then ['0', '.', '0'] else decimalText x.shortest
  if x.negative then '-' :: magnitude else magnitude

def hexDigit (n : Nat) : Char := Nat.digitChar n

/-- Quotes, backslashes and control characters are escaped; nothing else is. -/
def escape (c : Char) : List Char :=
  match c with
  | '"' => ['\\', '"']
  | '\\' => ['\\', '\\']
  | '\x08' => ['\\', 'b']
  | '\x0c' => ['\\', 'f']
  | '\n' => ['\\', 'n']
  | '\r' => ['\\', 'r']
  | '\t' => ['\\', 't']
  | _ =>
      if c.toNat < 0x20 then ['\\', 'u', '0', '0', hexDigit (c.toNat / 16), hexDigit (c.toNat % 16)]
      else [c]

def quote (s : String) : List Char := '"' :: s.toList.flatMap escape ++ ['"']

def separated (separator : List Char) (words : List (List Char)) : List Char :=
  separator.intercalate words

mutual

def render : Json → List Char
  | .null => ['n', 'u', 'l', 'l']
  | .bool true => ['t', 'r', 'u', 'e']
  | .bool false => ['f', 'a', 'l', 's', 'e']
  | .integer n => intText n
  | .real x => realText x
  | .string s => quote s
  | .array items => '[' :: separated [','] (renderItems items) ++ [']']
  | .object members => '{' :: separated [','] (renderMembers members) ++ ['}']

def renderItems : List Json → List (List Char)
  | [] => []
  | item :: items => render item :: renderItems items

def renderMembers : List (String × Json) → List (List Char)
  | [] => []
  | (key, value) :: members => (quote key ++ ':' :: render value) :: renderMembers members

end

def compact (value : Json) : String := String.ofList (render value)

def newline (level : Nat) : List Char := '\n' :: List.replicate (2 * level) ' '

/-- Brackets around indented words, which go together where there are none. -/
def block (level : Nat) (left right : Char) : List (List Char) → List Char
  | [] => [left, right]
  | words =>
      left :: newline (level + 1) ++ separated (',' :: newline (level + 1)) words ++
        newline level ++ [right]

mutual

def renderIndented (level : Nat) : Json → List Char
  | .array items => block level '[' ']' (indentedItems (level + 1) items)
  | .object members => block level '{' '}' (indentedMembers (level + 1) members)
  | value => render value

def indentedItems (level : Nat) : List Json → List (List Char)
  | [] => []
  | item :: items => renderIndented level item :: indentedItems level items

def indentedMembers (level : Nat) : List (String × Json) → List (List Char)
  | [] => []
  | (key, value) :: members =>
      (quote key ++ ':' :: ' ' :: renderIndented level value) :: indentedMembers level members

end

def pretty (value : Json) : String := String.ofList (renderIndented 0 value)

end Overload.Json
