import Overload.TypeExpr.Printer

/-!
Events: what the library reports of its decisions. Each has a level and a text.
-/
namespace Overload

inductive Event where
  | joined (count : Nat) (result : TypeExpr)
  | building (operation : String) (resolvers : Nat)
  | unionized (operation : String) (result : TypeExpr)
  | rejected (operation : String) (shared : TypeExpr)
  | merged (operation argument : String) (declarations : Nat) (type : TypeExpr)
  | resolved (operation : String) (result : TypeExpr) (arguments : Nat)
  | built (queries mutations : Nat)

namespace Event

def level : Event → String
  | joined _ _ | unionized _ _ | merged _ _ _ _ => "TRACE"
  | building _ _ | rejected _ _ | resolved _ _ _ => "DEBUG"
  | built _ _ => "INFO"

def text : Event → String
  | joined count result => s!"join of {count} type(s) resolved to {result.text}"
  | building operation resolvers =>
      s!"building operation `{operation}` from {resolvers} resolver(s)"
  | unionized operation result =>
      s!"operation `{operation}` unionizes its result types into {result.text}"
  | rejected operation shared =>
      s!"operation `{operation}` rejected: result types only share {shared.text}"
  | merged operation argument declarations type =>
      s!"argument `{argument}` of `{operation}` merged from {declarations} declaration(s) " ++
        s!"into {type.text}"
  | resolved operation result arguments =>
      s!"operation `{operation}` resolves to {result.text} with {arguments} argument(s)"
  | built queries mutations => s!"built {queries} query and {mutations} mutation operation(s)"

end Event

end Overload
