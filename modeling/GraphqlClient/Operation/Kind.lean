import GraphqlClient.Json.Tree
import GraphqlClient.Syntax.Document

/-!
# Kinds of operations
-/

namespace GraphqlClient

open Json Text

/-- What a request asks for. A teardown signals that an earlier operation with the same key is no
longer wanted. -/
inductive OperationKind
  | query
  | mutation
  | subscription
  | teardown
deriving DecidableEq

namespace OperationKind

/-- The name of a kind. -/
def name : OperationKind → String
  | .query => "query"
  | .mutation => "mutation"
  | .subscription => "subscription"
  | .teardown => "teardown"

/-- The kind of the operations of a type. -/
def ofType : Syntax.OperationType → OperationKind
  | .query => .query
  | .mutation => .mutation
  | .subscription => .subscription

/-- The kind with a name. -/
def ofName? (s : String) : Option OperationKind :=
  [query, mutation, subscription, teardown].find? fun k => k.name == s

/-- The kind that a tree writes: its name, or an object with its name as the only key and null. -/
def ofTree? : Tree → Option OperationKind
  | .string s => (Symbol.string? s).bind ofName?
  | .object [(key, .null)] => (Symbol.string? key).bind ofName?
  | _ => none

/-- The kind that a JSON text writes. -/
def ofText? (text : String) : Option OperationKind := (Tree.ofText? text).bind ofTree?

/-- The value that writes a kind. -/
def toValue (k : OperationKind) : Value := .string k.name

end OperationKind

end GraphqlClient
