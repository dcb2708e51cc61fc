import Overload.Document.Hierarchy
import Overload.Operation.Basic

/-!
Why a command fails, and how that is reported: the failure itself, and below it what caused it.
-/
namespace Overload

inductive CommandError where
  | unreadable (file reason : String)
  | unsupportedSchema (file : String)
  | unsupportedHierarchy (file : String)
  | invalidSchema (cause : DocumentError)
  | invalidHierarchy (cause : DocumentError)
  | unbuildable (file : String) (cause : OperationError)
  | invalidType (cause : TypeExpr.SyntaxError)
  | unjoinable (cause : HierarchyError)

/-- What lies behind an error of building, the error itself first. -/
def OperationError.chain (e : OperationError) : List String :=
  match e with
  | wrongType _ cause => [e.message, cause.message]
  | _ => [e.message]

namespace CommandError

def message : CommandError → String
  | unreadable file _ => s!"Failed to read {file}"
  | unsupportedSchema file => s!"Unsupported schema file `{file}`. Must be json or yaml."
  | unsupportedHierarchy file => s!"Unsupported hierarchy file `{file}`. Must be json or yaml."
  | invalidSchema cause => cause.message
  | invalidHierarchy cause => cause.hierarchyMessage
  | unbuildable file _ => s!"Failed to build operations from {file}"
  | invalidType cause => cause.message
  | unjoinable cause => cause.message

def causes : CommandError → List String
  | unreadable _ reason => [reason]
  | unbuildable _ cause => cause.chain
  | _ => []

/-- A text whose first line begins one way, and every further line another. -/
def indent (first further text : String) : String :=
  first ++ ("\n" ++ further).intercalate (text.splitOn "\n")

def causeLines (causes : List String) : List String :=
  match causes with
  | [cause] => [indent "    " "    " cause]
  | _ => causes.zipIdx.map fun (cause, i) => indent s!"    {i}: " "       " cause

def report (e : CommandError) : String :=
  "\n".intercalate <|
    s!"Error: {e.message}" ::
      match e.causes with
      | [] => []
      | causes => "" :: "Caused by:" :: causeLines causes

end CommandError

end Overload
