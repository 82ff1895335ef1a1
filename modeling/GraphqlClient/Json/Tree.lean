import GraphqlClient.Json.Numeral
import GraphqlClient.Json.Value
import GraphqlClient.Text.Symbol
import GraphqlClient.Text.Utf8

/-!
# JSON text as written

A `Tree` is what a JSON text writes, before strings and numbers are decoded and with the members of
an object as they stand, repeated keys included. `Tree.value?` decodes it to a value.
-/

namespace GraphqlClient.Json

open Text

/-- A JSON text as written. -/
inductive Tree
  | null
  | bool (b : Bool)
  | number (n : Numeral)
  | string (symbols : List Symbol)
  | array (items : List Tree)
  | object (members : List (List Symbol × Tree))

namespace Tree

/-! ## Reading -/

/-- Characters that may stand between the parts of a text. -/
def isBlank (c : Char) : Bool := c = ' ' || c = '\t' || c = '\n' || c = '\r'

/-- Passes over blanks. -/
def skipBlank : Reader Char Unit := fun cs => some ((), cs.dropWhile isBlank)

/-- A given text. -/
def word (text : List Char) : Reader Char Unit := fun cs =>
  if text.isPrefixOf cs then some ((), cs.drop text.length) else none

/-- Strings hold no bare control character, and name characters by 16-bit units only. -/
def literal : Symbol.Literal := ⟨fun c => 0x20 ≤ c.toNat, false⟩

/-- Whether a given character stands in front. -/
def opensWith (c : Char) (cs : List Char) : Bool := cs.head? = some c

/-- Items between commas, with blanks behind commas, and the closing bracket. -/
def readItems {α : Type} (close : Char) (item : Reader Char α) : Reader Char (List α) := do
  skipBlank
  if opensWith close (← get) then
    word [close]
    return []
  let x ← item
  let xs ← Reader.many (opensWith ',') (do word [',']; skipBlank; item)
  word [close]
  return x :: xs

/-- A key, a colon and a value. -/
def readMember (value : Reader Char Tree) : Reader Char (List Symbol × Tree) := do
  word ['"']
  let key ← Symbol.read literal
  skipBlank
  word [':']
  skipBlank
  let v ← value
  return (key, v)

/-- A value, given a reader for the values inside it. -/
def readFront (inner : Reader Char Tree) : Reader Char Tree
  | [] => none
  | c :: cs =>
    if c = '"' then (string <$> Symbol.read literal) cs
    else if c = '[' then (array <$> readItems ']' inner) cs
    else if c = '{' then (object <$> readItems '}' (readMember inner)) cs
    else if c = 'n' then ((fun _ => null) <$> word "ull".toList) cs
    else if c = 't' then ((fun _ => bool true) <$> word "rue".toList) cs
    else if c = 'f' then ((fun _ => bool false) <$> word "alse".toList) cs
    else (number <$> Numeral.read) (c :: cs)

/-- A value that nests at most so deep, and the blanks behind it. -/
def read : Nat → Reader Char Tree
  | 0 => fun _ => none
  | depth + 1 => do
    let tree ← readFront (read depth)
    skipBlank
    return tree

/-- What a text begins with, blanks before and behind it included. A text cannot nest deeper than it
is long. -/
def readText : Reader Char Tree := fun cs =>
  (do skipBlank; read (cs.length + 1) : Reader Char Tree) cs

/-- What a text writes; none when it is not JSON. -/
def ofText? (text : String) : Option Tree := Reader.whole readText text.toList

/-! ## Decoding -/

mutual

/-- The value that a tree writes, if it nests at most `depth` lists and objects and all its strings
and numbers can be decoded. Of a repeated key the first place and the last value count. -/
def value? (depth : Nat) : Tree → Option Value
  | .null => some .null
  | .bool b => some (.bool b)
  | .number n => n.number?.map .number
  | .string s => (Symbol.string? s).map .string
  | .array ts => if depth = 0 then none else (values? (depth - 1) ts).map .array
  | .object ms =>
    if depth = 0 then none
    else (members? (depth - 1) ms).map fun ms => .object (Members.collapse ms)

/-- The values that trees write. -/
def values? (depth : Nat) : List Tree → Option (List Value)
  | [] => some []
  | t :: ts => do
    let v ← value? depth t
    let vs ← values? depth ts
    return v :: vs

/-- The members that the parts of an object write, repeated keys included. -/
def members? (depth : Nat) : List (List Symbol × Tree) → Option (List (String × Value))
  | [] => some []
  | (key, t) :: ms => do
    let k ← Symbol.string? key
    let v ← value? depth t
    let vs ← members? depth ms
    return (k, v) :: vs

end

end Tree

/-- How deep a text may nest lists and objects. -/
def maxDepth : Nat := 127

/-- The value that a text writes; none when it is not JSON. -/
def Value.ofText? (text : String) : Option Value :=
  (Tree.ofText? text).bind (Tree.value? maxDepth)

/-- The value that bytes write as a text in UTF-8; none when they are not. -/
def Value.ofBytes? (bytes : ByteArray) : Option Value :=
  (String.fromUTF8? bytes).bind Value.ofText?

/-- The value that bytes begin with, whatever follows it. -/
def Value.leading? (bytes : ByteArray) : Option Value :=
  (Tree.readText (Text.leadingChars bytes)).bind fun r => r.1.value? maxDepth

end GraphqlClient.Json
