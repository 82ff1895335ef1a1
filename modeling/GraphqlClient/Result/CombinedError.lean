import GraphqlClient.Response.GraphqlError

/-!
# Combined errors

Everything that went wrong with one operation: the errors a server reported, the failure that kept a
response away, and the raw response if there is one.
-/

namespace GraphqlClient.Result

open Json Response

/-- The errors that affected one result. A network error is its text.

The message is left out: every way to make an error sets it to the text that `CombinedError.message`
reads off the other parts, and an error is never changed once it is made. -/
structure CombinedError where
  graphqlErrors : List GraphqlError
  networkError : Option String := none
  response : Option Value := none

namespace CombinedError

/-- A network error alone. -/
def ofNetworkError (text : String) (response : Option Value) : CombinedError :=
  ⟨[], some text, response⟩

/-- GraphQL errors alone. -/
def ofGraphqlErrors (errors : List GraphqlError) (response : Option Value) : CombinedError :=
  ⟨errors, none, response⟩

/-- The GraphQL errors followed by further ones. A network error is not carried over, since more
errors only come with a response. -/
def extend (e : CombinedError) (errors : List GraphqlError) (response : Option Value) :
    CombinedError :=
  ofGraphqlErrors (e.graphqlErrors ++ errors) response

/-- The network error, or else a line for each GraphQL error. -/
def message (e : CombinedError) : String :=
  match e.networkError with
  | some text => "[Network] " ++ text
  | none => "\n".intercalate (e.graphqlErrors.map fun g => "[GraphQL] " ++ g.message)

/-- The value that writes the error. -/
def toValue (e : CombinedError) : Value := .object [
  ("message", .string e.message),
  ("graphQLErrors", .array (e.graphqlErrors.map GraphqlError.toValue)),
  ("networkError", match e.networkError with
    | some text => .string text
    | none => .null)]

/-- Equality of errors, whatever the order of members in the values they hold. -/
def same (e f : CombinedError) : Bool :=
  GraphqlError.sameList e.graphqlErrors f.graphqlErrors
    && e.networkError == f.networkError && sameOption e.response f.response

end CombinedError

end GraphqlClient.Result
