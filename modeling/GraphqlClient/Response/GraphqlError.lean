import GraphqlClient.Json.Writer
import GraphqlClient.Response.Path

/-!
# GraphQL errors

An error is read leniently out of any value: a string is its message; of an object either all four
members are read, or only its message; any other value is kept as text.
-/

namespace GraphqlClient.Response

open Json

/-- A line and column in the document of a request, both counted from one. -/
structure Location where
  line : UInt64
  column : UInt64
deriving DecidableEq

/-- An error as found in a response. -/
structure GraphqlError where
  message : String
  locations : List Location
  path : Path
  extensions : Members

namespace Location

/-- The location that the members of an object write. -/
def ofMembers? (ms : Members) : Option Location := do
  let line ← (ms.lookup "line").bind PathSegment.indexOfValue?
  let column ← (ms.lookup "column").bind PathSegment.indexOfValue?
  return ⟨line, column⟩

/-- The location that a value writes: an object, or a list of line and column. -/
def ofValue? : Value → Option Location
  | .object ms => ofMembers? ms
  | .array [l, c] => do
    let line ← PathSegment.indexOfValue? l
    let column ← PathSegment.indexOfValue? c
    return ⟨line, column⟩
  | _ => none

/-- The value that writes a location. -/
def toValue (l : Location) : Value :=
  .object [("line", .number (.integer l.line.toNat)), ("column", .number (.integer l.column.toNat))]

end Location

namespace GraphqlError

/-- An error that has a message only. -/
def bare (message : String) : GraphqlError := ⟨message, [], [], []⟩

/-! ## The four members -/

/-- The keys of the members of an error, in the order in which a list writes them. -/
def memberKeys : List String := ["message", "locations", "path", "extensions"]

/-- The message that a member writes. -/
def message? : Option Value → Option String
  | none => some ""
  | some (.string s) => some s
  | some _ => none

/-- The locations that a member writes. -/
def locations? : Option Value → Option (List Location)
  | none => some []
  | some (.array vs) => vs.mapM Location.ofValue?
  | some _ => none

/-- The path that a member writes. -/
def path? : Option Value → Option Path
  | none => some []
  | some v => (readPath v).toOption

/-- The extensions that a member writes. -/
def extensions? : Option Value → Option Members
  | none => some []
  | some (.object ms) => some ms
  | some _ => none

/-- The error that the members of an object write; none when one of the four is misshapen. -/
def ofMembers? (ms : Members) : Option GraphqlError := do
  let message ← message? (ms.lookup "message")
  let locations ← locations? (ms.lookup "locations")
  let path ← path? (ms.lookup "path")
  let extensions ← extensions? (ms.lookup "extensions")
  return ⟨message, locations, path, extensions⟩

/-- The error that any value writes. -/
def ofValue : Value → GraphqlError
  | .string s => bare s
  | .object ms =>
    (ofMembers? ms).getD (bare ((message? (ms.lookup "message")).getD ""))
  | v => bare v.toText

/-- The value that writes an error. Parts that are empty are left out, the message apart. -/
def toValue (e : GraphqlError) : Value :=
  .object <|
    [("message", .string e.message)]
      ++ (if e.locations.isEmpty then [] else [("locations", .array (e.locations.map Location.toValue))])
      ++ (if e.path.isEmpty then [] else [("path", pathValue e.path)])
      ++ (if e.extensions.isEmpty then [] else [("extensions", .object e.extensions)])

/-- Equality of errors, whatever the order of members in the extensions. -/
def same (e f : GraphqlError) : Bool :=
  e.message == f.message && e.locations == f.locations && e.path == f.path
    && (Value.object e.extensions).same (.object f.extensions)

/-- Equality of lists of errors, one by one. -/
def sameList : List GraphqlError → List GraphqlError → Bool
  | [], [] => true
  | e :: es, f :: fs => e.same f && sameList es fs
  | _, _ => false

end GraphqlError

end GraphqlClient.Response
