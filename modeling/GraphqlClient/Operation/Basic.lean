import GraphqlClient.Normalization.Key
import GraphqlClient.Operation.Kind
import GraphqlClient.Operation.Variables

/-!
# Operations

An operation is a document with variables. Its key is the digest of the document's key, a null
character and the encoded variables.
-/

namespace GraphqlClient

open Normalization

/-- The identity of an operation. -/
structure OperationKey where
  digits : String
deriving DecidableEq

/-- The text whose digest is the key of an operation. -/
def OperationKey.source (document : DocumentKey) (values : Json.Members) : String :=
  document.digits ++ "\x00" ++ String.ofList values.encode

/-- The key of an operation. -/
def OperationKey.of (document : DocumentKey) (values : Json.Members) : OperationKey :=
  ⟨Digest.hexDigest (source document values)⟩

/-- A request that results are built for. -/
structure Operation where
  key : OperationKey
  kind : OperationKind
  query : KeyedDocument
  variableValues : Json.Members

namespace Operation

/-- An operation of a kind. -/
def ofKind (kind : OperationKind) (query : KeyedDocument) (values : Json.Members) : Operation :=
  ⟨.of query.key values, kind, query, values⟩

/-- The type of a definition that is an operation. -/
def typeOf? : Syntax.Definition → Option Syntax.OperationType
  | .operation o => some o.type
  | .fragment _ => none

/-- The kind of the first operation of a document; a query if there is none. -/
def kindOf (d : Syntax.Document) : OperationKind :=
  ((d.findSome? typeOf?).map OperationKind.ofType).getD .query

/-- An operation of the kind of the first operation of its document. -/
def ofDocument (query : KeyedDocument) (values : Json.Members) : Operation :=
  ofKind (kindOf query.document) query values

/-- The same request with another kind. -/
def withKind (o : Operation) (kind : OperationKind) : Operation := { o with kind }

@[simp] theorem key_withKind (o : Operation) (kind : OperationKind) :
    (o.withKind kind).key = o.key := rfl

/-- Equality of operations: the key and the kind. -/
def same (o p : Operation) : Bool := o.key == p.key && o.kind == p.kind

end Operation

end GraphqlClient
