import GraphqlClient.Text.Hex

/-!
# Tokens of GraphQL documents

A token knows whether a comma stands before it. Commas are blanks everywhere but at two points of
the grammar, which look at the token behind the next one.
-/

namespace GraphqlClient.Syntax

open Text

/-- Punctuation. -/
inductive Mark
  | bang
  | dollar
  | ampersand
  | parenOpen
  | parenClose
  | spread
  | colon
  | equals
  | atSign
  | bracketOpen
  | bracketClose
  | braceOpen
  | bar
  | braceClose
deriving DecidableEq

/-- What a token is. Numbers keep their spelling, strings do not. -/
inductive TokenKind
  | mark (m : Mark)
  | name (text : String)
  | int (text : String)
  | float (text : String)
  | string (value : String)
deriving DecidableEq

/-- A token and whether a comma stands before it. -/
structure Token where
  kind : TokenKind
  afterComma : Bool
deriving DecidableEq

/-- Text of a punctuation mark. -/
def Mark.text : Mark → List Char
  | .bang => ['!']
  | .dollar => ['$']
  | .ampersand => ['&']
  | .parenOpen => ['(']
  | .parenClose => [')']
  | .spread => ['.', '.', '.']
  | .colon => [':']
  | .equals => ['=']
  | .atSign => ['@']
  | .bracketOpen => ['[']
  | .bracketClose => [']']
  | .braceOpen => ['{']
  | .bar => ['|']
  | .braceClose => ['}']

/-- A character as it is written in a string. -/
def escape (c : Char) : List Char :=
  if c = '"' ∨ c = '\\' then ['\\', c]
  else if c = '\x08' then ['\\', 'b']
  else if c = '\n' then ['\\', 'n']
  else if c = '\x0c' then ['\\', 'f']
  else if c = '\r' then ['\\', 'r']
  else if c.toNat < 0x20 ∧ c ≠ '\t' then
    '\\' :: 'u' :: '0' :: '0' :: (hexPair c.toNat).map Char.toUpper
  else [c]

/-- Text of a string. -/
def stringText (s : String) : List Char := '"' :: s.toList.flatMap escape ++ ['"']

/-- Text of a token. -/
def TokenKind.text : TokenKind → List Char
  | .mark m => m.text
  | .name n => n.toList
  | .int s => s.toList
  | .float s => s.toList
  | .string s => stringText s

end GraphqlClient.Syntax
