import GraphqlClient.Text.Reader

/-!
# Block strings

The value of a block string is its lines without their common indentation and without blank lines
at either end. The first line stands behind the opening quotes and has no indentation of its own.
-/

namespace GraphqlClient.Syntax

/-- The content of a block string behind its opening quotes, up to the closing ones. A backslash
takes up to three quotes right behind it; with three of them it is dropped. -/
def readBlock : Reader Char (List Char)
  | [] => none
  | '"' :: '"' :: '"' :: cs => some ([], cs)
  | '\\' :: '"' :: '"' :: '"' :: cs =>
    (readBlock cs).map fun r => ('"' :: '"' :: '"' :: r.1, r.2)
  | '\\' :: '"' :: '"' :: cs => (readBlock cs).map fun r => ('\\' :: '"' :: '"' :: r.1, r.2)
  | '\\' :: '"' :: cs => (readBlock cs).map fun r => ('\\' :: '"' :: r.1, r.2)
  | c :: cs => (readBlock cs).map fun r => (c :: r.1, r.2)

/-- The lines of a text, which ends each line but the last with a line feed, a carriage return, or
both in this order. -/
def lines : List Char → List (List Char)
  | [] => [[]]
  | '\r' :: '\n' :: cs => [] :: lines cs
  | c :: cs =>
    if c = '\n' ∨ c = '\r' then [] :: lines cs
    else match lines cs with
      | line :: rest => (c :: line) :: rest
      | [] => [[c]]

/-- Characters that indent a line. -/
def isIndent (c : Char) : Bool := c = ' ' || c = '\t'

/-- Whether a line holds indentation only. -/
def isBlankLine (line : List Char) : Bool := line.all isIndent

/-- The least indentation of the lines that are not blank. -/
def commonIndent (rest : List (List Char)) : Nat :=
  ((rest.filter fun l => !isBlankLine l).map fun l => (l.takeWhile isIndent).length).min?.getD 0

/-- The lines without blank ones at either end. -/
def trimLines (ls : List (List Char)) : List (List Char) :=
  ((ls.dropWhile isBlankLine).reverse.dropWhile isBlankLine).reverse

/-- The value of a block string with a given content. -/
def blockValue (content : List Char) : List Char :=
  let ls := match lines content with
    | first :: rest => first :: rest.map (·.drop (commonIndent rest))
    | [] => []
  ['\n'].intercalate (trimLines ls)

end GraphqlClient.Syntax
