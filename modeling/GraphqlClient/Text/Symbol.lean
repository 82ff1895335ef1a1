import GraphqlClient.Text.Hex
import GraphqlClient.Text.Reader

/-!
# String literals as written

A string literal may name a character by 16-bit units. Such units are kept apart until the whole
literal is read: a high surrogate needs the low one right behind it.
-/

namespace GraphqlClient.Text

/-- A character of a string literal: written as itself, or as a 16-bit unit. -/
inductive Symbol
  | plain (c : Char)
  | unit (code : Nat)

/-- The character with a scalar value; none for surrogates and past the last plane. -/
def scalar? (n : Nat) : Option Char :=
  if h : n.isValidChar then some (Char.ofNatAux n h) else none

/-- A unit that opens a pair. -/
def isHighSurrogate (n : Nat) : Bool := 0xD800 ≤ n && n < 0xDC00

/-- A unit that closes a pair. -/
def isLowSurrogate (n : Nat) : Bool := 0xDC00 ≤ n && n < 0xE000

/-- The scalar value that a pair of units stands for. -/
def pairValue (high low : Nat) : Nat := 0x10000 + (high - 0xD800) * 0x400 + (low - 0xDC00)

namespace Symbol

/-- The characters that symbols stand for; none when a surrogate stands alone. -/
def characters? : List Symbol → Option (List Char)
  | [] => some []
  | .plain c :: rest => (characters? rest).map (c :: ·)
  | .unit high :: .unit low :: rest =>
    if isHighSurrogate high && isLowSurrogate low then do
      let c ← scalar? (pairValue high low)
      let cs ← characters? rest
      return c :: cs
    else do
      let c ← scalar? high
      let cs ← characters? (.unit low :: rest)
      return c :: cs
  | .unit code :: rest => do
    let c ← scalar? code
    let cs ← characters? rest
    return c :: cs

/-- The string that symbols stand for. -/
def string? (symbols : List Symbol) : Option String :=
  (characters? symbols).map String.ofList

/-! ## Reading a literal -/

/-- How a kind of literal is written. -/
structure Literal where
  /-- Whether a character may stand for itself. -/
  raw : Char → Bool
  /-- Whether a character may be named by a scalar value between braces. -/
  braces : Bool

/-- The character that a letter behind a backslash stands for. -/
def unescape? (c : Char) : Option Char :=
  if c = '"' ∨ c = '\\' ∨ c = '/' then some c
  else if c = 'b' then some '\x08'
  else if c = 'f' then some '\x0c'
  else if c = 'n' then some '\n'
  else if c = 'r' then some '\r'
  else if c = 't' then some '\t'
  else none

mutual

/-- The rest of a literal behind its opening quote, up to the closing one. -/
def read (L : Literal) : Reader Char (List Symbol)
  | [] => none
  | '"' :: cs => some ([], cs)
  | '\\' :: 'u' :: '{' :: cs => if L.braces then readBraces L [] cs else none
  | '\\' :: 'u' :: a :: b :: c :: d :: cs => do
    let code ← hexValue? [a, b, c, d]
    let (symbols, cs) ← read L cs
    return (.unit code :: symbols, cs)
  | '\\' :: letter :: cs => do
    let c ← unescape? letter
    let (symbols, cs) ← read L cs
    return (.plain c :: symbols, cs)
  | c :: cs =>
    if c ≠ '\\' ∧ L.raw c then (read L cs).map fun r => (.plain c :: r.1, r.2) else none

/-- The rest of a literal behind an opening brace and some digits, the last one first. -/
def readBraces (L : Literal) (digits : List Char) : Reader Char (List Symbol)
  | [] => none
  | '}' :: cs => do
    let code ← hexValue? digits.reverse
    let c ← scalar? code
    let (symbols, cs) ← read L cs
    return (.plain c :: symbols, cs)
  | c :: cs => readBraces L (c :: digits) cs

end

end Symbol

end GraphqlClient.Text
