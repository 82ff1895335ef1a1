import GraphqlClient.Json.Value

/-!
# Paths into response data

A segment is a field name or a list index. A field name made of digits also designates an index,
since the keys of an object are always strings.
-/

namespace GraphqlClient.Response

open Json

/-- One step of a path into response data. -/
inductive PathSegment
  | field (name : String)
  | index (n : UInt64)
deriving DecidableEq

/-- A path into response data. -/
abbrev Path := List PathSegment

/-- The number below `2 ^ 64` that a nonempty list of decimal digits writes. -/
def decimalIndex? (ds : List Char) : Option UInt64 :=
  if ds ≠ [] ∧ ds.all Char.isDigit ∧ Nat.ofDigitChars 10 ds 0 < UInt64.size then
    some (UInt64.ofNat (Nat.ofDigitChars 10 ds 0))
  else none

/-- The list index that a field name designates: decimal digits, behind a plus sign or not. -/
def nameIndex? (name : String) : Option UInt64 :=
  match name.toList with
  | '+' :: ds => decimalIndex? ds
  | ds => decimalIndex? ds

namespace PathSegment

/-- The list index that a segment designates. -/
def asIndex : PathSegment → Option UInt64
  | .field name => nameIndex? name
  | .index n => some n

/-- The key that a segment designates in an object. -/
def key : PathSegment → String
  | .field name => name
  | .index n => String.ofList (Nat.toDigits 10 n.toNat)

/-- The whole number below `2 ^ 64` that a value is. -/
def indexOfValue? : Value → Option UInt64
  | .number (.integer n) => if 0 ≤ n ∧ n < UInt64.size then some (UInt64.ofNat n.toNat) else none
  | _ => none

/-- The segment that a value writes. -/
def ofValue? : Value → Option PathSegment
  | .string s => some (.field s)
  | v => (indexOfValue? v).map .index

/-- The value that writes a segment. -/
def toValue : PathSegment → Value
  | .field name => .string name
  | .index n => .number (.integer n.toNat)

/-- A segment keeps its kind when it is written and read. -/
@[simp] theorem ofValue?_toValue (s : PathSegment) : ofValue? s.toValue = some s := by
  cases s with
  | field name => rfl
  | index n =>
    have h : (n.toNat : Int) < UInt64.size := Int.ofNat_lt.mpr n.toNat_lt_size
    simp only [toValue, ofValue?, indexOfValue?, h, Int.natCast_nonneg, and_self, if_true]
    simp

end PathSegment

/-- Why a value is no path. -/
inductive PathFault
  | notList (found : Value)
  | segment

/-- The path that a value writes. -/
def readPath : Value → Except PathFault Path
  | .array vs =>
    match vs.mapM PathSegment.ofValue? with
    | some path => .ok path
    | none => .error .segment
  | v => .error (.notList v)

/-- The value that writes a path. -/
def pathValue (path : Path) : Value := .array (path.map PathSegment.toValue)

@[simp] theorem readPath_pathValue (path : Path) : readPath (pathValue path) = .ok path := by
  have h : (path.map PathSegment.toValue).mapM PathSegment.ofValue? = some path := by
    induction path with
    | nil => rfl
    | cons s path ih => simp [List.mapM_cons, ih]
  simp [readPath, pathValue, h]

end GraphqlClient.Response
