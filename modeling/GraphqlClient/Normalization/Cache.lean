import GraphqlClient.Normalization.Key
import GraphqlClient.Syntax.Reader

/-!
# Cache of documents

A cache holds one instance for each key, the first that came with it. A session is a cache and the
supply of identities for new instances.
-/

namespace GraphqlClient.Normalization

open Syntax

/-- The canonical instances by key, in the order in which they were registered. -/
structure Cache where
  entries : List (DocumentKey × KeyedDocument) := []

namespace Cache

/-- The instance registered for a key. -/
def get? (c : Cache) (key : DocumentKey) : Option KeyedDocument := c.entries.lookup key

/-- How many instances are registered. -/
def size (c : Cache) : Nat := c.entries.length

/-- Registers an instance under its key. -/
def register (c : Cache) (d : KeyedDocument) : Cache := ⟨c.entries ++ [(d.key, d)]⟩

theorem get?_register (c : Cache) (d : KeyedDocument) (key : DocumentKey) :
    (c.register d).get? key = (c.get? key).or (if key = d.key then some d else none) := by
  rw [get?, register, List.lookup_append, get?, List.lookup_cons]
  by_cases h : key = d.key
  · simp [h]
  · simp [h, beq_false_of_ne h]

end Cache

/-- What is noted while documents are normalised. -/
inductive Notice
  | conflict (fragment : Name)
  | registered
  | reused
deriving DecidableEq

namespace Notice

/-- Whether the notice is a warning. -/
def isWarning : Notice → Bool
  | .conflict _ => true
  | _ => false

/-- Text of a notice. -/
def message : Notice → String
  | .conflict fragment =>
    "fragment `" ++ fragment ++ "` is defined more than once with different contents; "
      ++ "keeping the first definition. Fragment names must be unique within a document"
  | .registered => "registered canonical document"
  | .reused => "reusing canonical document"

end Notice

/-- A cache, and the identity that the next new instance gets. -/
structure Session where
  cache : Cache := {}
  nextIdentity : Nat := 0

/-- A document that a session handed out, what was noted, and the session afterwards. -/
structure Delivery where
  document : KeyedDocument
  notices : List Notice
  session : Session

namespace Session

/-- A new instance of a document. -/
def newInstance (s : Session) (d : Document) : KeyedDocument := ⟨.of d, d, s.nextIdentity⟩

/-- A new instance that is not registered. -/
def wrap (s : Session) (d : Document) : Delivery :=
  ⟨s.newInstance d, [], { s with nextIdentity := s.nextIdentity + 1 }⟩

/-- The instance registered for the key of a document, which is a new one if there was none. -/
def canonicalize (s : Session) (d : Document) : Delivery :=
  match s.cache.get? (.of d) with
  | some found => ⟨found, [.reused], s⟩
  | none =>
    let new := s.newInstance d
    ⟨new, [.registered], ⟨s.cache.register new, s.nextIdentity + 1⟩⟩

/-- The canonical instance of the document that a text writes; none when it is not one. -/
def canonicalizeText (s : Session) (text : String) : Option Delivery :=
  (Document.ofText? text).map s.canonicalize

end Session

end GraphqlClient.Normalization
