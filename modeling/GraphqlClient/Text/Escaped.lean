import GraphqlClient.Text.Hidden

/-!
# Quoted text that shows every character

Text between quotes in which characters that would not show are written by their numbers.
-/

namespace GraphqlClient.Text

/-- The letter behind the backslash for a character that has a short name. -/
def shortName? (c : Char) : Option Char :=
  if c = '"' ∨ c = '\\' then some c
  else if c = '\n' then some 'n'
  else if c = '\r' then some 'r'
  else if c = '\t' then some 't'
  else if c = '\x00' then some '0'
  else none

/-- The number of a character between braces. -/
def numbered (c : Char) : List Char :=
  '\\' :: 'u' :: '{' :: Nat.toDigits 16 c.toNat ++ ['}']

/-- A character between quotes. -/
def escapedChar (c : Char) : List Char :=
  match shortName? c with
  | some letter => ['\\', letter]
  | none => if isHidden c then numbered c else [c]

/-- A text between quotes. -/
def escaped (s : String) : List Char := '"' :: s.toList.flatMap escapedChar ++ ['"']

end GraphqlClient.Text
