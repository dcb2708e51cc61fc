import Overload.Hierarchy.Basic

/-!
The builtin declarations: scalars, collections and two markers.
-/
namespace Overload.Hierarchy

def defaultTop : String := "Object"

/-- A type without parameters and its supertypes. -/
def scalar (name : String) (supertypes : List String) : Declaration :=
  { name, supertypes := supertypes.map fun s => .named [] s [] }

/-- A type of one parameter; its first supertypes take that parameter, the others none. -/
def collection (name : String) (generic plain : List String) : Declaration :=
  { name
    params := ["T"]
    supertypes :=
      generic.map (fun s => .named [] s [.named [] "T" []]) ++
        plain.map fun s => .named [] s [] }

def builtinDeclarations : List Declaration :=
  [{ name := "Serializable", marker := true, description := "Marker for serializable values" },
   { name := "Cloneable", marker := true, description := "Marker for cloneable values" },
   scalar "Number" ["Serializable"],
   scalar "Byte" ["Number"],
   scalar "Short" ["Number"],
   scalar "Int" ["Number"],
   scalar "Long" ["Number"],
   scalar "Float" ["Number"],
   scalar "Double" ["Number"],
   scalar "BigInteger" ["Number"],
   scalar "BigDecimal" ["Number"],
   scalar "Boolean" ["Serializable"],
   scalar "Char" ["Serializable"],
   scalar "CharSequence" [],
   scalar "String" ["CharSequence", "Serializable"],
   scalar "ID" ["Serializable"],
   collection "Iterable" [] [],
   collection "Collection" ["Iterable"] [],
   collection "List" ["Collection"] [],
   collection "Set" ["Collection"] [],
   collection "ArrayList" ["List"] ["Cloneable", "Serializable"],
   collection "HashSet" ["Set"] ["Cloneable", "Serializable"],
   collection "Optional" [] [],
   { name := "Map", params := ["K", "V"] }]

def builtinUnder (top : String) : Hierarchy := including { top } builtinDeclarations

def builtin : Hierarchy := builtinUnder defaultTop

end Overload.Hierarchy
