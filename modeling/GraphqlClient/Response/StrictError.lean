import GraphqlClient.Json.Tree
import GraphqlClient.Response.GraphqlError

/-!
# GraphQL errors out of a text

The strict reading of an error works on the text as written: a repeated member is a fault, and a
member that is not known is passed over whatever it holds. An error may also be written as a list
of its four members in order, of which the last ones may be missing.
-/

namespace GraphqlClient.Json.Tree

open Text

/-- The members of an object with their keys decoded; none when a key cannot be decoded. -/
def decodeKeys? : List (List Symbol × Tree) → Option (List (String × Tree))
  | [] => some []
  | (key, t) :: ms => do
    let k ← Symbol.string? key
    let ms ← decodeKeys? ms
    return (k, t) :: ms

/-- The members with a known key; none when one of them is repeated. -/
def knownMembers? (known : List String) (ms : List (List Symbol × Tree)) :
    Option (List (String × Tree)) := do
  let ms ← decodeKeys? ms
  let ms := ms.filter fun m => known.contains m.1
  if (ms.map Prod.fst).Nodup then some ms else none

end GraphqlClient.Json.Tree

namespace GraphqlClient.Response

open Json

/-- The location that a tree writes: an object without repeated members, or a list. -/
def Location.ofTree? (depth : Nat) : Tree → Option Location
  | .object ms => do
    let ms ← Tree.knownMembers? ["line", "column"] ms
    let vs ← ms.mapM fun m => (m.2.value? depth).map (m.1, ·)
    Location.ofMembers? vs
  | t => (t.value? depth).bind Location.ofValue?

namespace GraphqlError

/-- The locations that a tree writes. -/
def locationsOfTree? (depth : Nat) : Option Tree → Option (List Location)
  | none => some []
  | some (.array ts) => ts.mapM (Location.ofTree? depth)
  | some _ => none

/-- The error that members as written make up. -/
def ofTreeMembers? (depth : Nat) (ms : List (String × Tree)) : Option GraphqlError := do
  let locations ← locationsOfTree? depth (ms.lookup "locations")
  let others ← (ms.filter fun m => m.1 ≠ "locations").mapM fun m =>
    (m.2.value? depth).map (m.1, ·)
  let error ← ofMembers? others
  return { error with locations }

/-- The error that a tree writes. -/
def ofTree? : Tree → Option GraphqlError
  | .object ms => do
    let ms ← Tree.knownMembers? memberKeys ms
    ofTreeMembers? (maxDepth - 1) ms
  | .array ts =>
    if ts.length ≤ memberKeys.length then ofTreeMembers? (maxDepth - 1) (memberKeys.zip ts)
    else none
  | _ => none

/-- The error that a text writes. -/
def ofText? (text : String) : Option GraphqlError := (Tree.ofText? text).bind ofTree?

end GraphqlError

end GraphqlClient.Response
