/-!
Texts as lists of characters. Positions are given by lengths in UTF-8. Sets of characters, such as
the tables of character properties, are given by ascending, disjoint ranges of code points, ends
included; white space is the set of the twenty-five characters with the Unicode property
`White_Space`.
-/
namespace Overload.Text

def utf8Length : List Char → Nat
  | [] => 0
  | c :: cs => c.utf8Size + utf8Length cs

/-- The search stops at the first range that begins beyond the code point. -/
def inRanges (n : Nat) : List (Nat × Nat) → Bool
  | [] => false
  | (first, last) :: rest => first ≤ n && (n ≤ last || inRanges n rest)

def blankRanges : List (Nat × Nat) :=
  [(0x0009, 0x000D), (0x0020, 0x0020), (0x0085, 0x0085), (0x00A0, 0x00A0), (0x1680, 0x1680),
   (0x2000, 0x200A), (0x2028, 0x2029), (0x202F, 0x202F), (0x205F, 0x205F), (0x3000, 0x3000)]

def isBlank (c : Char) : Bool := inRanges c.toNat blankRanges

def skipBlanks : List Char → List Char := List.dropWhile isBlank

def trimEnd (cs : List Char) : List Char := (cs.reverse.dropWhile isBlank).reverse

end Overload.Text
