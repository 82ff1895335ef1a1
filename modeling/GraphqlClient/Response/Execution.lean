import GraphqlClient.Json.Tree
import GraphqlClient.Json.Writer
import GraphqlClient.Response.Path
import GraphqlClient.Text.Escaped

/-!
# Execution results

`ExecutionResult.ofValue` reads a result as a server sent it. The members `path`, `items` and
`incremental` have a shape, and the first one that misses it is reported; null there is the same as
absent. The members `data`, `errors` and `extensions` are kept as they are, null included.
-/

namespace GraphqlClient.Response

open Json

/-- One entry of a batch: where it belongs and what it brings. -/
structure IncrementalPayload where
  path : Path
  data : Option Value := none
  items : Option (List Value) := none
  errors : Option Value := none
  extensions : Option Value := none

/-- An execution result as received. -/
structure ExecutionResult where
  data : Option Value := none
  errors : Option Value := none
  extensions : Option Value := none
  hasNext : Bool := false
  /-- Where in earlier data this payload belongs. -/
  path : Option Path := none
  /-- List items to be written there. -/
  items : Option (List Value) := none
  /-- A batch of payloads. -/
  incremental : Option (List IncrementalPayload) := none

/-- A member of an execution result that has a shape. -/
inductive ShapedMember
  | path
  | items
  | incremental
deriving DecidableEq

/-- How a member misses its shape. -/
inductive ShapeFault
  | path (fault : PathFault)
  | itemsNotList
  | batchNotList
  | entryNotObject
  | entryWithoutPath

/-- Why something is no execution result. -/
inductive MalformedResult
  | notJson
  | notObject
  | member (name : ShapedMember) (fault : ShapeFault)

/-! ## Texts -/

/-- What a value is called where a list was expected. -/
def foundText : Value → List Char
  | .null => "null".toList
  | .bool b => "boolean `".toList ++ (Value.bool b).text ++ ['\x60']
  | .number n => "floating point `".toList ++ Floating.Layout.json.text n.toDouble ++ ['\x60']
  | .string s => "string ".toList ++ Text.escaped s
  | .array _ => "sequence".toList
  | .object _ => "map".toList

/-- The name of a member. -/
def ShapedMember.name : ShapedMember → String
  | .path => "path"
  | .items => "items"
  | .incremental => "incremental"

/-- The text of a fault. -/
def ShapeFault.message : ShapeFault → String
  | .path (.notList found) =>
    "invalid type: " ++ String.ofList (foundText found) ++ ", expected a sequence"
  | .path .segment => "data did not match any variant of untagged enum PathSegment"
  | .itemsNotList => "`items` must be an array"
  | .batchNotList => "expected an array"
  | .entryNotObject => "expected an array of objects"
  | .entryWithoutPath => "payload without a `path`"

/-- The text of a malformed result. -/
def MalformedResult.message : MalformedResult → String
  | .notJson => "execution result is not valid JSON"
  | .notObject => "execution result must be a JSON object"
  | .member name fault => "invalid `" ++ name.name ++ "` in execution result: " ++ fault.message

/-! ## Reading -/

/-- The value of a member that is present and not null. -/
def shaped? (key : String) (ms : Members) : Option Value :=
  match ms.lookup key with
  | some .null => none
  | found => found

/-- The path that a member writes. -/
def readPathMember (name : ShapedMember) (v : Value) : Except MalformedResult Path :=
  match readPath v with
  | .ok path => .ok path
  | .error fault => .error (.member name (.path fault))

/-- The items that a member writes, if it is there. -/
def readItemsMember (name : ShapedMember) : Option Value → Except MalformedResult (Option (List Value))
  | none => .ok none
  | some (.array vs) => .ok (some vs)
  | some _ => .error (.member name .itemsNotList)

/-- The entry of a batch that a value writes. -/
def IncrementalPayload.ofValue : Value → Except MalformedResult IncrementalPayload
  | .object ms => do
    let path ← match shaped? "path" ms with
      | some v => readPathMember .incremental v
      | none => .error (.member .incremental .entryWithoutPath)
    let items ← readItemsMember .incremental (shaped? "items" ms)
    return {
      path, items
      data := ms.lookup "data"
      errors := ms.lookup "errors"
      extensions := ms.lookup "extensions" }
  | _ => .error (.member .incremental .entryNotObject)

/-- The batch that a member writes, if it is there. -/
def readBatch : Option Value → Except MalformedResult (Option (List IncrementalPayload))
  | none => .ok none
  | some (.array vs) => some <$> vs.mapM IncrementalPayload.ofValue
  | some _ => .error (.member .incremental .batchNotList)

namespace ExecutionResult

/-- The execution result that a value writes, or the first fault in the order path, items, batch. -/
def ofValue : Value → Except MalformedResult ExecutionResult
  | .object ms => do
    let path ← match shaped? "path" ms with
      | some v => some <$> readPathMember .path v
      | none => .ok none
    let items ← readItemsMember .items (shaped? "items" ms)
    let incremental ← readBatch (shaped? "incremental" ms)
    return {
      path, items, incremental
      data := ms.lookup "data"
      errors := ms.lookup "errors"
      extensions := ms.lookup "extensions"
      hasNext := (ms.lookup "hasNext").any Value.isTruthy }
  | _ => .error .notObject

/-- The execution result that the bytes of a response body write. -/
def ofBytes (body : ByteArray) : Except MalformedResult ExecutionResult :=
  match Value.ofBytes? body with
  | some v => ofValue v
  | none => .error .notJson

/-- The execution result that the bytes of a stream write. The shape of a value is judged before what
follows it is looked at. -/
def ofStream (body : ByteArray) : Except MalformedResult ExecutionResult :=
  match Value.leading? body with
  | some v => ofValue v >>= fun _ => ofBytes body
  | none => .error .notJson

/-- Whether the payload targets a part of an earlier result rather than being a result. -/
def isPatch (r : ExecutionResult) : Bool := r.path.isSome || r.incremental.isSome

end ExecutionResult

end GraphqlClient.Response
