import GraphqlClient.Response.Path

/-!
# Splicing payloads into data

Every function here edits data the way a walk along a path does, step by step: what the walk creates
or replaces on its way stays, even where it ends early because an index is out of reach. So that an
edit out of reach leaves the data alone is a fact about the walk and not part of its definition.
-/

namespace GraphqlClient.Result

open Json Response

/-- How far past the end of a list an index may be written. -/
def maxPadding : Nat := 1024

/-- Whether an index of a list of a given length can be written. -/
def inReach (length index : Nat) : Bool := index ≤ length + maxPadding

/-- The list with nulls added up to an index, if it ends before it. -/
def padTo (index : Nat) (items : List Value) : List Value :=
  items ++ List.replicate (index + 1 - items.length) .null

/-- The list with a value at an index, padded up to it. -/
def writeItem (index : Nat) (v : Value) (items : List Value) : List Value :=
  (padTo index items).set index v

@[simp] theorem length_padTo (index : Nat) (items : List Value) :
    (padTo index items).length = max items.length (index + 1) := by
  simp only [padTo, List.length_append, List.length_replicate]
  omega

@[simp] theorem length_writeItem (index : Nat) (v : Value) (items : List Value) :
    (writeItem index v items).length = max items.length (index + 1) := by
  simp [writeItem]

theorem getElem?_writeItem_self (index : Nat) (v : Value) (items : List Value) :
    (writeItem index v items)[index]? = some v := by
  simp [writeItem, Nat.lt_of_lt_of_le (Nat.lt_succ_self index) (Nat.le_max_right ..)]

/-- Writing leaves the items at other indices alone. -/
theorem getElem?_writeItem_of_lt {index i : Nat} (v : Value) {items : List Value}
    (hi : i < items.length) (hne : i ≠ index) : (writeItem index v items)[i]? = items[i]? := by
  simp [writeItem, padTo, List.getElem?_set_ne hne.symm, List.getElem?_append_left hi]

/-- Writes values at consecutive indices for as long as these are in reach and below `2 ^ 64`, and
tells whether all are written. -/
def writeItems : Nat → List Value → List Value → List Value × Bool
  | _, [], items => (items, true)
  | index, v :: vs, items =>
    if index < UInt64.size ∧ inReach items.length index then
      writeItems (index + 1) vs (writeItem index v items)
    else (items, false)

/-! ## Walking along a path

An edit takes a value to the edited one and an answer; a walk also answers none when it ends
early. -/

section

variable {α : Type}

/-- Edits the item at an index, padding the list up to it. -/
def editItem (edit : Value → Value × Option α) (index : Nat) (items : List Value) :
    List Value × Option α :=
  if inReach items.length index then
    let edited := edit ((padTo index items).getD index .null)
    (writeItem index edited.1 items, edited.2)
  else (items, none)

/-- Edits the member with a key, which is null at the end of the object if it was absent. -/
def editMember (edit : Value → Value × Option α) (key : String) : Members → Members × Option α
  | [] =>
    let edited := edit .null
    ([(key, edited.1)], edited.2)
  | (k, v) :: ms =>
    if k = key then
      let edited := edit v
      ((k, edited.1) :: ms, edited.2)
    else
      let edited := editMember edit key ms
      ((k, v) :: edited.1, edited.2)

/-- Edits the child that a segment designates. What is neither an object nor a list that the segment
has an index for is replaced by an empty object. -/
def editChild (edit : Value → Value × Option α) (segment : PathSegment) (parent : Value) :
    Value × Option α :=
  match parent, segment.asIndex with
  | .array items, some index => (editItem edit index.toNat items).map .array id
  | .object ms, _ => (editMember edit segment.key ms).map .object id
  | _, _ => (editMember edit segment.key []).map .object id

/-- Edits the value that a path leads to. -/
def editAt (edit : Value → Value × α) : Path → Value → Value × Option α
  | [], v => (edit v).map id some
  | segment :: path, v => editChild (editAt edit path) segment v

end

/-! ## Payloads -/

/-- What is noted about a payload that could not be written, or not all of it. -/
inductive Notice
  | patchOutOfReach
  | streamOutOfReach
  | itemsOutOfReach
deriving DecidableEq

/-- Text of a notice. -/
def Notice.message : Notice → String
  | .patchOutOfReach => "ignoring patch: list index out of range"
  | .streamOutOfReach => "ignoring stream items: list index out of range"
  | .itemsOutOfReach => "dropping stream items: list index out of range"

/-- A container as it is, anything else as an empty object. -/
def asContainer (v : Value) : Value := if v.isContainer then v else .object []

/-- A list as it is, anything else as an empty one. -/
def asItems : Value → List Value
  | .array items => items
  | _ => []

/-- Writes values at consecutive indices, passing over those that are out of reach. -/
def overwriteItems : Nat → List Value → List Value → List Value
  | _, [], items => items
  | index, v :: vs, items =>
    overwriteItems (index + 1) vs
      (if inReach items.length index then writeItem index v items else items)

/-- Overwrites a container by data of its kind, member by member or item by item. Other data is
ignored. -/
def mergeFields : Value → Option Value → Value
  | .object ms, some (.object patch) => .object (Members.merge ms patch)
  | .array items, some (.array patch) => .array (overwriteItems 0 patch items)
  | target, _ => target

/-- Merges data into the value that a path leads to. -/
def mergeAt (path : Path) (data : Option Value) (root : Value) : Value × List Notice :=
  let walk := editAt (fun target => (mergeFields (asContainer target) data, ())) path root
  (walk.1, if walk.2.isSome then [] else [.patchOutOfReach])

/-- The index at which a path asks to write: that of its last segment, otherwise zero. -/
def startIndex (path : Path) : Nat :=
  match path.getLast?.bind PathSegment.asIndex with
  | some index => index.toNat
  | none => 0

/-- Writes items into the list that a path without its last segment leads to. -/
def insertItems (path : Path) (items : List Value) (root : Value) : Value × List Notice :=
  let walk := editAt (fun target => (writeItems (startIndex path) items (asItems target)).map .array id)
    path.dropLast root
  (walk.1, match walk.2 with
    | some true => []
    | some false => [.itemsOutOfReach]
    | none => [.streamOutOfReach])

end GraphqlClient.Result
