/-!
# GraphQL documents

Executable documents: operations and fragments, in any order and with any names. The definitions and
extensions of a type system, which the full language has besides, are not covered: no document here
holds one, and no text with one is read as a document. Normalisation would treat them like
operations, since it asks nothing of a definition but the name that it has as a fragment.
-/

namespace GraphqlClient.Syntax

/-- A name. -/
abbrev Name := String

/-- The value of an argument. Numbers keep their spelling. -/
inductive Value
  | var (name : Name)
  | int (text : String)
  | float (text : String)
  | string (s : String)
  | boolean (b : Bool)
  | null
  | enum (name : Name)
  | list (items : List Value)
  | object (fields : List (Name × Value))

/-- Arguments in order, each a name and a value. -/
abbrev Arguments := List (Name × Value)

/-- A directive. -/
structure Directive where
  name : Name
  arguments : Arguments

/-- The type of a variable. -/
inductive TypeRef
  | named (name : Name) (required : Bool)
  | list (item : TypeRef) (required : Bool)

/-- The definition of a variable. -/
structure VariableDefinition where
  name : Name
  type : TypeRef
  initial : Option Value
  directives : List Directive

/-- What is asked of an object. A field with no selections has no selection set. -/
inductive Selection
  | field (label : Option Name) (name : Name) (arguments : Arguments)
      (directives : List Directive) (selections : List Selection)
  | spread (name : Name) (directives : List Directive)
  | inlineFragment (typeCondition : Option Name) (directives : List Directive)
      (selections : List Selection)

/-- What an operation does. -/
inductive OperationType
  | query
  | mutation
  | subscription
deriving DecidableEq

/-- An operation. -/
structure Operation where
  type : OperationType
  name : Option Name
  variableDefinitions : List VariableDefinition
  directives : List Directive
  selections : List Selection

/-- A fragment. -/
structure Fragment where
  name : Name
  typeCondition : Name
  directives : List Directive
  selections : List Selection

/-- A definition of a document. Those of a type system are left out. -/
inductive Definition
  | operation (o : Operation)
  | fragment (f : Fragment)

/-- The definitions of a document in order. -/
abbrev Document := List Definition

/-- The keyword of an operation type. -/
def OperationType.keyword : OperationType → Name
  | .query => "query"
  | .mutation => "mutation"
  | .subscription => "subscription"

/-- The name of a definition that is a fragment. -/
def Definition.fragmentName? : Definition → Option Name
  | .operation _ => none
  | .fragment f => some f.name

/-- The names of the fragments among definitions, in order. -/
def fragmentNames (ds : List Definition) : List Name := ds.filterMap Definition.fragmentName?

@[simp] theorem fragmentNames_nil : fragmentNames [] = [] := rfl

@[simp] theorem fragmentNames_operation_cons (o : Operation) (ds : List Definition) :
    fragmentNames (.operation o :: ds) = fragmentNames ds := rfl

@[simp] theorem fragmentNames_fragment_cons (f : Fragment) (ds : List Definition) :
    fragmentNames (.fragment f :: ds) = f.name :: fragmentNames ds := rfl

end GraphqlClient.Syntax
