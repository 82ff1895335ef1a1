import GraphqlClient.Operation.Basic
import GraphqlClient.Response.Execution
import GraphqlClient.Result.CombinedError
import GraphqlClient.Result.Splice

/-!
# Results of operations

A result is built from the first payload of an operation, or from the failure to get one, and takes
in every payload that follows. Errors never make a result fail: it carries them beside its data.
-/

namespace GraphqlClient.Result

open Json Response

/-- The result of an operation. -/
structure OperationResult where
  operation : Operation
  data : Option Value := none
  error : Option CombinedError := none
  extensions : Option Members := none
  /-- Whether more payloads are expected. -/
  hasNext : Bool := false
  /-- Whether a newer result is on its way. -/
  stale : Bool := false

/-- Why a payload cannot be the first one. -/
inductive NoContent
  | empty
  | patch
deriving DecidableEq

/-- Text of a refusal. -/
def NoContent.message : NoContent → String
  | .empty => "No Content: execution result has neither `data` nor `errors`"
  | .patch => "No Content: execution result has a `path` and can only be merged into a previous result"

/-- The errors that a member brings, if it is a list. -/
def errorsOf? : Option Value → Option (List GraphqlError)
  | some (.array vs) => some (vs.map GraphqlError.ofValue)
  | _ => none

/-- The extensions that a member brings, if it is an object. -/
def extensionsOf? : Option Value → Option Members
  | some (.object ms) => some ms
  | _ => none

namespace OperationResult

/-! ## First payloads -/

/-- The result for the first payload of an operation. The raw response is kept with its errors. -/
def build (operation : Operation) (first : ExecutionResult) (response : Option Value) :
    Except NoContent OperationResult :=
  if first.path.isSome then .error .patch
  else if first.data.isNone && first.errors.isNone then .error .empty
  else .ok {
    operation
    data := first.data
    error := (errorsOf? first.errors).map (CombinedError.ofGraphqlErrors · response)
    extensions := extensionsOf? first.extensions
    hasNext := first.hasNext }

/-- The result for an operation that got no response. -/
def ofNetworkError (operation : Operation) (text : String) (response : Option Value) :
    OperationResult :=
  { operation, error := some (.ofNetworkError text response) }

/-! ## Later payloads -/

/-- Adds the errors that a member brings. -/
def appendErrors (r : OperationResult) (errors response : Option Value) : OperationResult :=
  match errorsOf? errors with
  | none => r
  | some es =>
    { r with error := some <| match r.error with
        | some previous => previous.extend es response
        | none => .ofGraphqlErrors es response }

/-- Sets the extensions that a member brings. -/
def mergeExtensions (r : OperationResult) (extensions : Option Value) : OperationResult :=
  match extensionsOf? extensions with
  | none => r
  | some ms => { r with extensions := some (Members.merge (r.extensions.getD []) ms) }

/-- The data into which payloads are spliced: an object or a list. -/
def dataRoot (r : OperationResult) : Value := asContainer (r.data.getD (.object []))

/-- Takes in one payload: its errors, its extensions, then its items or its data. -/
def applyPayload (r : OperationResult) (p : IncrementalPayload) (response : Option Value) :
    OperationResult × List Notice :=
  let r := (r.appendErrors p.errors response).mergeExtensions p.extensions
  let spliced := match p.items with
    | some items => insertItems p.path items r.dataRoot
    | none => mergeAt p.path p.data r.dataRoot
  ({ r with data := some spliced.1 }, spliced.2)

/-- Takes in payloads in turn. -/
def applyPayloads (response : Option Value) :
    OperationResult → List IncrementalPayload → OperationResult × List Notice
  | r, [] => (r, [])
  | r, p :: ps =>
    let first := r.applyPayload p response
    let rest := applyPayloads response first.1 ps
    (rest.1, first.2 ++ rest.2)

/-- The payload that an execution result with a path is. -/
def payloadAt (path : Path) (patch : ExecutionResult) : IncrementalPayload :=
  { path, data := patch.data, items := patch.items, errors := patch.errors,
    extensions := patch.extensions }

/-- Takes in a later payload. A batch is taken in entry by entry, then its own errors and
extensions; a patch with a path is one payload; any other patch replaces the data, if it has any. -/
def applyPatch (r : OperationResult) (patch : ExecutionResult) (response : Option Value) :
    OperationResult × List Notice :=
  let r := { r with hasNext := patch.hasNext }
  match patch.incremental, patch.path with
  | some batch, _ =>
    let applied := applyPayloads response r batch
    ((applied.1.appendErrors patch.errors response).mergeExtensions patch.extensions, applied.2)
  | none, some path => r.applyPayload (payloadAt path patch) response
  | none, none =>
    match patch.data with
    | some data => ({ r with data := some data }, [])
    | none => (r, [])

/-! ## Other forms -/

/-- The value that writes a result. Parts that are absent are left out. -/
def toValue (r : OperationResult) : Value :=
  .object <|
    (r.data.map fun v => ("data", v)).toList
      ++ (r.error.map fun e => ("error", e.toValue)).toList
      ++ (r.extensions.map fun ms => ("extensions", .object ms)).toList
      ++ [("hasNext", .bool r.hasNext), ("stale", .bool r.stale)]

/-- Equality of optional errors. -/
def sameError : Option CombinedError → Option CombinedError → Bool
  | none, none => true
  | some e, some f => e.same f
  | _, _ => false

/-- Equality of results, whatever the order of members in the values they hold. -/
def same (r s : OperationResult) : Bool :=
  r.operation.same s.operation && sameOption r.data s.data && sameError r.error s.error
    && sameOption (r.extensions.map .object) (s.extensions.map .object)
    && r.hasNext == s.hasNext && r.stale == s.stale

end OperationResult

end GraphqlClient.Result
