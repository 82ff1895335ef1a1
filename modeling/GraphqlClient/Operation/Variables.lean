import GraphqlClient.Json.Writer

/-!
# Encoding of variables

Variables are encoded with the members of every object sorted by key, so that their order does not
matter. Every item of a list and every member of an object ends in a comma.
-/

namespace GraphqlClient.Json

/-- Members with encoded values, sorted by key. -/
def sortMembers (ms : List (String × List Char)) : List (String × List Char) :=
  ms.mergeSort fun m n => decide (m.1 ≤ n.1)

/-- An encoded member. -/
def encodeMember (m : String × List Char) : List Char := stringText m.1 ++ ':' :: m.2 ++ [',']

/-- An object whose members have encoded values. -/
def encodeObject (ms : List (String × List Char)) : List Char :=
  '{' :: (sortMembers ms).flatMap encodeMember ++ ['}']

mutual

/-- The encoding of a value. -/
def Value.encode : Value → List Char
  | .array vs => '[' :: encodeItems vs ++ [']']
  | .object ms => encodeObject (encodeValues ms)
  | .null => Value.null.text
  | .bool b => (Value.bool b).text
  | .number n => (Value.number n).text
  | .string s => (Value.string s).text

/-- The encoding of the items of a list. -/
def encodeItems : List Value → List Char
  | [] => []
  | v :: vs => v.encode ++ ',' :: encodeItems vs

/-- Members with their values encoded. -/
def encodeValues : List (String × Value) → List (String × List Char)
  | [] => []
  | (k, v) :: ms => (k, v.encode) :: encodeValues ms

end

/-- The encoding of an object. -/
def Members.encode (ms : Members) : List Char := (Value.object ms).encode

end GraphqlClient.Json
