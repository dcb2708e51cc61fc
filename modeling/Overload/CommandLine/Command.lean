/-!
Commands and how they are given. Options and other words may stand in any order; after `--` there
are only words.
-/
namespace Overload

inductive Command where
  | build (file : String) (compact : Bool)
  | join (types : List String) (hierarchy : Option String)
deriving DecidableEq

namespace Command

/-- A single dash is a word. -/
def isOption (arg : String) : Bool :=
  match arg.toList with
  | '-' :: _ :: _ => true
  | _ => false

/-- The value in an option of the form `name=value`. -/
def attachedValue? (name arg : String) : Option String :=
  let start := name.toList ++ ['=']
  if start.isPrefixOf arg.toList then some (String.ofList (arg.toList.drop start.length)) else none

/-- The words of `build`, and whether it is asked to be compact, which may be said once. -/
def readBuild : List String → Option (List String × Bool)
  | [] => some ([], false)
  | arg :: rest => do
      let (words, compact) ← readBuild rest
      if arg = "-c" ∨ arg = "--compact" then if compact then none else some (words, true)
      else if isOption arg then none
      else some (arg :: words, compact)

/-- The words of `join`, and its hierarchy file, which may be given once. -/
def readJoin : List String → Option (List String × Option String)
  | [] => some ([], none)
  | ["--hierarchy"] => none
  | "--hierarchy" :: file :: rest => do
      let (words, other) ← readJoin rest
      if isOption file || other.isSome then none else some (words, some file)
  | arg :: rest => do
      let (words, other) ← readJoin rest
      match attachedValue? "--hierarchy" arg with
      | some file => if other.isSome then none else some (words, some file)
      | none => if isOption arg then none else some (arg :: words, other)

def splitArgs (args : List String) : List String × List String :=
  (args.takeWhile (· ≠ "--"), (args.dropWhile (· ≠ "--")).drop 1)

def ofArgs? : List String → Option Command
  | "build" :: args => do
      let (before, after) := splitArgs args
      let (words, compact) ← readBuild before
      match words ++ after with
      | [file] => some (.build file compact)
      | _ => none
  | "join" :: args => do
      let (before, after) := splitArgs args
      let (words, hierarchy) ← readJoin before
      match words ++ after with
      | [] => none
      | types => some (.join types hierarchy)
  | _ => none

def file? : Command → Option String
  | build file _ => some file
  | join _ hierarchy => hierarchy

end Command

end Overload
