import Overload.CommandLine.Command
import Overload.CommandLine.Error
import Overload.Document.Schema

/-!
What commands do: `build` prints the catalog of a schema file, `join` the join of some types.
-/
namespace Overload

structure Outcome where
  exitCode : Nat
  output : String := ""
  errors : String := ""

/-- The contents of files, or why they cannot be read. -/
abbrev Files := String → Except String String

namespace Command

def readFile (files : Files) (file : String) : Except CommandError String :=
  (files file).mapError (.unreadable file)

def isJson (file : String) : Bool := file.endsWith ".json"

def readSchema (files : Files) (file : String) : Except CommandError Schema := do
  let text ← readFile files file
  if isJson file then (Schema.decoder.parse text).mapError .invalidSchema
  else .error (.unsupportedSchema file)

def readHierarchy (files : Files) : Option String → Except CommandError Hierarchy
  | none => .ok .builtin
  | some file => do
      let text ← readFile files file
      if isJson file then (Hierarchy.decoder.parse text).mapError .invalidHierarchy
      else .error (.unsupportedHierarchy file)

def runBuild (files : Files) (file : String) (compact : Bool) : Except CommandError String := do
  let schema ← readSchema files file
  let hierarchy := schema.hierarchy.getD .builtin
  let catalog ← (Catalog.build hierarchy schema.options schema.queries schema.mutations).mapError
    (.unbuildable file)
  .ok (if compact then catalog.toJson.compact else catalog.toJson.pretty)

/-- The join, with a note if it says nothing about its values. -/
def joinText (h : Hierarchy) (t : TypeExpr) : String :=
  if h.isContentFree t then s!"{t.text} (content-free)" else t.text

def runJoin (files : Files) (types : List String) (hierarchy : Option String) :
    Except CommandError String := do
  let h ← readHierarchy files hierarchy
  let types ← (types.mapM TypeExpr.parse).mapError .invalidType
  let t ← (h.join types).mapError .unjoinable
  .ok (joinText h t)

def run (files : Files) : Command → Except CommandError String
  | build file compact => runBuild files file compact
  | join types hierarchy => runJoin files types hierarchy

end Command

namespace Outcome

def usage : String :=
  "Usage: overload build FILE [--compact|-c]\n" ++
  "       overload join TYPE... [--hierarchy FILE]\n"

/-- Runs the command that the arguments give. Wrong usage has an exit code of its own. -/
def ofArgs (files : Files) (args : List String) : Outcome :=
  match Command.ofArgs? args with
  | none => { exitCode := 2, errors := usage }
  | some command =>
      match command.run files with
      | .ok line => { exitCode := 0, output := line ++ "\n" }
      | .error e => { exitCode := 1, errors := e.report ++ "\n" }

end Outcome

end Overload
