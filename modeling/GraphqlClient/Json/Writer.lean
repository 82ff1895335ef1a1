import GraphqlClient.Json.Value
import GraphqlClient.Text.Hex

/-!
# JSON text

Compact text of values: no blanks, members in order, and in strings only quotes, backslashes and
control characters escaped.
-/

namespace GraphqlClient.Json

open Text

/-- The letter behind the backslash for a control character that has a short escape. -/
def shortEscape? (c : Char) : Option Char :=
  if c = '\x08' then some 'b'
  else if c = '\x0c' then some 'f'
  else if c = '\n' then some 'n'
  else if c = '\r' then some 'r'
  else if c = '\t' then some 't'
  else none

/-- A character as it is written in a string. -/
def escape (c : Char) : List Char :=
  if c = '"' ∨ c = '\\' then ['\\', c]
  else if c.toNat < 0x20 then
    match shortEscape? c with
    | some letter => ['\\', letter]
    | none => '\\' :: 'u' :: '0' :: '0' :: hexPair c.toNat
  else [c]

/-- Text of a string. -/
def stringText (s : String) : List Char :=
  '"' :: s.toList.flatMap escape ++ ['"']

mutual

/-- Text of a value. -/
def Value.text : Value → List Char
  | .null => ['n', 'u', 'l', 'l']
  | .bool true => ['t', 'r', 'u', 'e']
  | .bool false => ['f', 'a', 'l', 's', 'e']
  | .number n => n.text
  | .string s => stringText s
  | .array xs => '[' :: itemsText xs
  | .object ms => '{' :: membersText ms

/-- Text of the items of a list and its closing bracket. -/
def itemsText : List Value → List Char
  | [] => [']']
  | [x] => x.text ++ [']']
  | x :: xs => x.text ++ ',' :: itemsText xs

/-- Text of the members of an object and its closing brace. -/
def membersText : List (String × Value) → List Char
  | [] => ['}']
  | [(k, v)] => stringText k ++ ':' :: v.text ++ ['}']
  | (k, v) :: ms => stringText k ++ ':' :: v.text ++ ',' :: membersText ms

end

/-- Text of a value as a string. -/
def Value.toText (v : Value) : String := String.ofList v.text

end GraphqlClient.Json
