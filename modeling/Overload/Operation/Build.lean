import Overload.Grouping
import Overload.Hierarchy.Join
import Overload.Operation.Basic

/-!
Building an operation from its overloads. All their types must be declared; then the result types
are united or joined, the receivers must agree, and arguments of one name become one argument.
-/
namespace Overload.Operation

def allAnnotations (types : List TypeExpr) : List Annotation :=
  mergeAnnotations [] (types.flatMap TypeExpr.annotations)

/-- All types of a resolver in the order in which they are checked. -/
def typesOf (r : Resolver) : List TypeExpr :=
  r.resultType :: r.receivers ++ r.arguments.map (·.type)

def checkTypes (h : Hierarchy) (rs : List Resolver) : Except HierarchyError Unit :=
  h.checkAll (rs.flatMap typesOf)

/-- The result type: the union of the declared types if one of the resolvers asks for it, and else
their join, which must not be free of content. It takes on all their annotations. -/
def unifyResults (h : Hierarchy) (o : Options) (operation : String) (rs : List Resolver) :
    Except OperationError TypeExpr :=
  let declared := rs.map (·.resultType)
  if rs.any (·.unionSource) then
    .ok ((TypeExpr.unionOf declared).annotate (allAnnotations declared))
  else
    match h.joinWithin declared o.maxJoinDepth with
    | .error e => .error (.wrongType operation e)
    | .ok t =>
        if h.isContentFree t then .error (.incompatibleResults operation declared t)
        else .ok (t.annotate (allAnnotations declared))

/-- Whether two lists without repetitions hold the same types. -/
def sameReceivers (expected found : List TypeExpr) : Bool :=
  expected.length == found.length && expected.all fun t => found.any (·.sameType t)

/-- The receivers of the first resolver, which all others must have too. -/
def agreeOnReceivers (operation : String) : List Resolver → Except OperationError (List TypeExpr)
  | [] => .ok []
  | first :: others =>
      match others.findIdx? fun r => !sameReceivers first.receivers r.receivers with
      | none => .ok first.receivers
      | some i =>
          .error (.differentReceivers operation first.receivers (i + 1)
            ((others[i]?.map (·.receivers)).getD []))

/-- The declarations of each argument name, in the order asked for. -/
def argumentGroups (o : Options) (rs : List Resolver) : List (String × List Argument) :=
  let groups := groupBy Argument.name (rs.flatMap (·.arguments))
  match o.argumentOrder with
  | .firstOccurrence => groups
  | .alphabetical => groups.foldl (fun sorted g => insertSorted Prod.fst g sorted) []

def argumentType (h : Hierarchy) (o : Options) (declared : List Argument) :
    Except HierarchyError TypeExpr := do
  let types := declared.map (·.type)
  let t ← h.joinWithin types o.maxJoinDepth
  .ok (t.annotate (allAnnotations types))

/-- One argument for the declarations of its name. The first description and the first default
count, and a flag that one declaration has. -/
def mergeArgument (h : Hierarchy) (o : Options) (group : String × List Argument) :
    Except HierarchyError Argument := do
  let (name, declared) := group
  let type ← argumentType h o declared
  .ok
    { name, type
      description := firstText? (declared.filterMap (·.description))
      default := declared.findSome? (·.default)
      context := declared.any (·.context)
      mappable := declared.any (·.mappable) }

def mergeArguments (h : Hierarchy) (o : Options) (operation : String) (rs : List Resolver) :
    Except OperationError (List Argument) :=
  ((argumentGroups o rs).mapM (mergeArgument h o)).mapError (.wrongType operation)

def build (h : Hierarchy) (o : Options) (rs : List Resolver) : Except OperationError Operation :=
  match rs with
  | [] => .error .noResolvers
  | first :: _ => do
      (checkTypes h rs).mapError (.wrongType first.name)
      let resultType ← unifyResults h o first.name rs
      let receivers ← agreeOnReceivers first.name rs
      let arguments ← mergeArguments h o first.name rs
      .ok
        { name := first.name, resultType, receivers, arguments
          batched := rs.any (·.batched)
          resolvers := rs }

def resultEvents (h : Hierarchy) (o : Options) (operation : String) (rs : List Resolver) :
    List Event :=
  let declared := rs.map (·.resultType)
  let outcome := match unifyResults h o operation rs with
    | .ok t => if rs.any (·.unionSource) then [.unionized operation t] else []
    | .error (.incompatibleResults _ _ shared) => [.rejected operation shared]
    | .error _ => []
  if rs.any (·.unionSource) then outcome
  else h.joinEvents declared o.maxJoinDepth ++ outcome

def argumentEvents (h : Hierarchy) (o : Options) (operation : String) :
    List (String × List Argument) → List Event
  | [] => []
  | (name, declared) :: groups =>
      h.joinEvents (declared.map (·.type)) o.maxJoinDepth ++
        match argumentType h o declared with
        | .ok t =>
            .merged operation name declared.length t :: argumentEvents h o operation groups
        | .error _ => []

def buildEvents (h : Hierarchy) (o : Options) (rs : List Resolver) : List Event :=
  match rs with
  | [] => []
  | first :: _ =>
      .building first.name rs.length ::
        match checkTypes h rs with
        | .error _ => []
        | .ok _ =>
            resultEvents h o first.name rs ++
              match unifyResults h o first.name rs, agreeOnReceivers first.name rs with
              | .ok result, .ok _ =>
                  argumentEvents h o first.name (argumentGroups o rs) ++
                    match mergeArguments h o first.name rs with
                    | .ok arguments => [.resolved first.name result arguments.length]
                    | .error _ => []
              | _, _ => []

end Overload.Operation
