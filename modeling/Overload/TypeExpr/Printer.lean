import Overload.Json.Printer
import Overload.Name
import Overload.TypeExpr.Basic

/-!
The text of a type: annotations in front, parameters in angle brackets, a union in square ones.
-/
namespace Overload

namespace Annotation

/-- A key that is no name is quoted. -/
def renderKey (key : String) : List Char := if isName key then key.toList else Json.quote key

def renderEntry (entry : String × Json) : List Char :=
  renderKey entry.1 ++ [' ', '=', ' '] ++ entry.2.render

def render (a : Annotation) : List Char :=
  match a.values.map renderEntry with
  | [] => '@' :: a.name.toList
  | entries => '@' :: a.name.toList ++ '(' :: Json.separated [',', ' '] entries ++ [')']

def text (a : Annotation) : String := String.ofList a.render

end Annotation

namespace TypeExpr

def renderAnnotations (as : List Annotation) : List Char := as.flatMap fun a => a.render ++ [' ']

mutual

def render : TypeExpr → List Char
  | named as name [] => renderAnnotations as ++ name.toList
  | named as name (p :: ps) =>
      renderAnnotations as ++ name.toList ++
        '<' :: Json.separated [',', ' '] (render p :: renderAll ps) ++ ['>']
  | wildcard as => renderAnnotations as ++ ['?']
  | union as members =>
      renderAnnotations as ++ "union[".toList ++
        Json.separated [' ', '|', ' '] (renderAll members) ++ [']']

def renderAll : List TypeExpr → List (List Char)
  | [] => []
  | t :: ts => render t :: renderAll ts

end

def text (t : TypeExpr) : String := String.ofList t.render

def listText (ts : List TypeExpr) : String := ", ".intercalate (ts.map text)

end TypeExpr

end Overload
