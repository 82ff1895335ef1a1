import GraphqlClient.Digest.Sha256
import GraphqlClient.Syntax.Writer

/-!
# Document keys

The key of a document is the digest of the text it is written as, so that documents read from
differently formatted texts have one key.
-/

namespace GraphqlClient.Normalization

open Syntax

/-- The stable identity of a document. -/
structure DocumentKey where
  digits : String
deriving DecidableEq

/-- The key of a document. -/
def DocumentKey.of (d : Document) : DocumentKey := ⟨Digest.hexDigest d.text⟩

/-- A document with its key. An instance has an identity of its own: two instances may hold the
same document. -/
structure KeyedDocument where
  key : DocumentKey
  document : Document
  identity : Nat

namespace KeyedDocument

/-- Whether two documents are the same instance. -/
def isSame (a b : KeyedDocument) : Bool := a.identity = b.identity

/-- Whether two documents are equal, the same instance or not. -/
def equal (a b : KeyedDocument) : Bool := a.isSame b || a.key = b.key

end KeyedDocument

end GraphqlClient.Normalization
