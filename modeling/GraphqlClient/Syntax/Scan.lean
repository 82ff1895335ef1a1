import GraphqlClient.Syntax.Block
import GraphqlClient.Syntax.Token
import GraphqlClient.Text.Numeral
import GraphqlClient.Text.Symbol

/-!
# Text as tokens

`tokens?` cuts a text into lexemes and keeps the tokens among them.
-/

namespace GraphqlClient.Syntax

open Text

/-- A piece of text that cannot be cut: something passed over, a comma, or a token. -/
inductive Lexeme
  | blank
  | comma
  | token (kind : TokenKind)

/-- Characters between tokens: blanks, line ends and the byte order mark. -/
def isBlank (c : Char) : Bool := c = ' ' || c = '\t' || c = '\n' || c = '\r' || c = '\uFEFF'

/-- Characters that end a line. -/
def isLineEnd (c : Char) : Bool := c = '\n' || c = '\r'

/-- The first character of a name. -/
def isNameStart (c : Char) : Bool := c.isAlpha || c = '_'

/-- Any character of a name. -/
def isNameChar (c : Char) : Bool := isNameStart c || c.isDigit

/-- The punctuation mark that is a single character. -/
def mark? (c : Char) : Option Mark :=
  [.bang, .dollar, .ampersand, .parenOpen, .parenClose, .colon, .equals, .atSign, .bracketOpen,
    .bracketClose, .braceOpen, .bar, .braceClose].find? fun m => m.text = [c]

/-- Strings hold no bare line end, and may name a character between braces. -/
def literal : Symbol.Literal := ⟨fun c => !isLineEnd c, true⟩

/-- The symbols of a string behind its opening quote. A line end may stand for itself there, at
the very beginning. -/
def readQuoted : Reader Char (List Symbol)
  | c :: cs =>
    if isLineEnd c then (Symbol.read literal cs).map fun r => (.plain c :: r.1, r.2)
    else Symbol.read literal (c :: cs)
  | [] => none

/-- A string behind its first quote. -/
def readString : Reader Char String
  | '"' :: '"' :: cs => (readBlock cs).map fun r => (String.ofList (blockValue r.1), r.2)
  | '"' :: cs => some ("", cs)
  | cs => do
    let (symbols, cs) ← readQuoted cs
    let s ← Symbol.string? symbols
    return (s, cs)

/-- Whether a number may end where this text begins. -/
def endsNumber (cs : List Char) : Bool :=
  match cs with
  | c :: _ => !isNameChar c && c ≠ '.'
  | [] => true

/-- A number. -/
def readNumber : Reader Char TokenKind := fun cs => do
  let (n, cs) ← Numeral.read cs
  let text := String.ofList n.text
  if endsNumber cs then return (if n.isWhole then .int text else .float text, cs) else none

/-- The lexeme in front. -/
def Lexeme.read : Reader Char Lexeme
  | [] => none
  | c :: cs =>
    if isBlank c then some (.blank, cs)
    else if c = ',' then some (.comma, cs)
    else if c = '#' then some (.blank, cs.dropWhile fun c => !isLineEnd c)
    else if c = '"' then (readString cs).map fun r => (.token (.string r.1), r.2)
    else if isNameStart c then
      some (.token (.name (String.ofList (c :: cs.takeWhile isNameChar))), cs.dropWhile isNameChar)
    else if c = '-' || c.isDigit then (readNumber (c :: cs)).map fun r => (.token r.1, r.2)
    else if c = '.' then
      match cs with
      | '.' :: '.' :: cs => some (.token (.mark .spread), cs)
      | _ => none
    else (mark? c).map fun m => (.token (.mark m), cs)

/-- The tokens of a text, the first of which stands behind a comma or not. -/
def scan (afterComma : Bool) (cs : List Char) : Option (List Token) :=
  if cs.isEmpty then some []
  else match Lexeme.read cs with
    | none => none
    | some (lexeme, rest) =>
      if rest.length < cs.length then
        match lexeme with
        | .blank => scan afterComma rest
        | .comma => scan true rest
        | .token kind => (scan false rest).map (⟨kind, afterComma⟩ :: ·)
      else none
termination_by cs.length

/-- The tokens of a text; none when a part of it is no token. -/
def tokens? (text : List Char) : Option (List Token) := scan false text

end GraphqlClient.Syntax
